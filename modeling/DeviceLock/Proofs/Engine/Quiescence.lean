import DeviceLock.Proofs.Engine.View

/-!
Runs whose collaborators do as they are asked, once all operations are answered. A pass brings about
what its pair of states asks for, and a device state that is stored later is followed by a further
pass: `Machine.Consistent` holds whenever no policy job runs, and `quiescent_consistency` is what is
left of it when nothing is to come.
-/

namespace DeviceLock

open Program

theorem Scheduler.Fit.orders {s s' : Scheduler Nat} {shown : Option LockMode} {d : Deed}
    (h : s.Fit shown) (ho : d.Orders s s') : s'.Fit shown := by
  cases ho with
  | schedule now fresh id => exact .inr ⟨_, h.schedule now fresh _⟩
  | cancel now => exact .inl (h.cancel now)
  | act => exact h
  | request => exact h

namespace View

variable {v v' : View} {n : Nat} {p : ProvisionState} {device : DeviceState} {d : Deed}

structure Read (n : Nat) (p : ProvisionState) (device : DeviceState) (v : View) : Prop where
  cursor : v.core.cursor = some p
  known : n ≤ v.jobs.length
  device : v.core.document.device = device ∨ ∃ i : Nat, n ≤ i ∧ v.jobs[i]? = some .enforce

def Issued (p : ProvisionState) (device : DeviceState) (v : View) : Prop :=
  PolicyStep.resolve p device ≠ .idle → v.step = some (.resolve p device)

structure Passing (n : Nat) (p : ProvisionState) (device : DeviceState) (v : View) : Prop where
  read : v.Read n p device
  issued : v.Issued p device
  fit : v.scheduler.Fit v.shown

structure Enforced (n : Nat) (p : ProvisionState) (device : DeviceState) (v : View) : Prop where
  read : v.Read n p device
  issued : v.Issued p device
  screen : v.scheduler.Presents v.shown (.resolve p device)

theorem Read.drifts (h : v.Read n p device) (hd : v.Drifts v') : v'.Read n p device := by
  obtain ⟨jobs, hjobs, hdevice⟩ := hd.jobs
  refine ⟨hd.core.2.2 p h.cursor, Nat.le_trans h.known hd.grows.length_le, ?_⟩
  rcases hdevice with hsame | hmem
  · rw [hsame]
    exact h.device.imp_right fun ⟨i, hi, hj⟩ => ⟨i, hi, JobQueue.getElem?_of_grows hd.grows hj⟩
  · obtain ⟨i, hi⟩ := List.getElem?_of_mem hmem
    refine .inr ⟨v.jobs.length + i, Nat.le_add_right_of_le h.known, ?_⟩
    rw [hjobs, List.getElem?_append_right (Nat.le_add_right _ _), Nat.add_sub_cancel_left]
    exact hi

theorem Issued.drifts (h : v.Issued p device) (hd : v.Drifts v') : v'.Issued p device :=
  fun hne => hd.step.trans (h hne)

theorem Enforced.drifts (h : v.Enforced n p device) (hd : v.Drifts v') : v'.Enforced n p device :=
  ⟨h.read.drifts hd, h.issued.drifts hd, h.screen.moves hd.screen⟩

theorem Read.turns (h : v.Read n p device) (ht : d.Turns v v') (hw : d.Within .enforcing) :
    v'.Read n p device := by
  have hjobs : v'.jobs = v.jobs := by
    have hnone : d.submitted .policy = [] := by
      cases d with
      | act a x => cases a <;> first | rfl | exact hw.elim
      | request r x => rfl
    rw [ht.jobs, hnone, List.append_nil]
  have hcore : v'.core.cursor = some p ∧ v'.core.document = v.core.document := by
    rw [ht.core]
    cases d with
    | act a x => cases a <;> first | exact ⟨h.cursor, rfl⟩ | exact hw.elim
    | request r x =>
      cases r with
      | cursor =>
        cases x with
        | error f => exact ⟨h.cursor, rfl⟩
        | ok s =>
          have hs : s = v.core.position := ht.fits
          refine ⟨?_, rfl⟩
          simp [Deed.effect, hs, Core.position, h.cursor]
      | write k => exact hw.elim
      | _ => exact ⟨h.cursor, rfl⟩
  exact ⟨hcore.1, hjobs ▸ h.known, by rw [hcore.2, hjobs]; exact h.device⟩

theorem Issued.turns (h : v.Issued p device) (ht : d.Turns v v')
    (hi : ∀ last, d.issues last = last) : v'.Issued p device :=
  fun hne => by rw [ht.step, hi, h hne]

theorem Enforced.turns (h : v.Enforced n p device) (ht : d.Turns v v')
    (hw : d.Within .enforcing) (ha : d.Aside) : v'.Enforced n p device := by
  refine ⟨h.read.turns ht hw, h.issued.turns ht ha.issues, ?_⟩
  rw [ht.shown, ha.leaves, ha.scheduler _ _ ht.scheduler]
  exact h.screen

theorem fit_turns (h : v.scheduler.Fit v.shown) (ht : d.Turns v v')
    (hl : ∀ shown, d.leaves shown = shown) : v'.scheduler.Fit v'.shown := by
  rw [ht.shown, hl]
  exact h.orders ht.scheduler

theorem Passing.drifts (h : v.Passing n p device) (hd : v.Drifts v') : v'.Passing n p device :=
  ⟨h.read.drifts hd, h.issued.drifts hd, h.fit.moves hd.screen⟩

theorem Passing.turns (h : v.Passing n p device) (ht : d.Turns v v') (hw : d.Within .enforcing)
    (hi : ∀ last, d.issues last = last) (hl : ∀ shown, d.leaves shown = shown) :
    v'.Passing n p device :=
  ⟨h.read.turns ht hw, h.issued.turns ht hi, fit_turns h.fit ht hl⟩

theorem Enforced.next (h : v.Enforced n p device) {j : PolicyJob} (hj : v.jobs[n]? = some j)
    (hne : j ≠ .enforce) : v.Enforced (n + 1) p device := by
  refine ⟨⟨h.read.cursor, (List.getElem?_eq_some_iff.mp hj).1, ?_⟩, h.issued, h.screen⟩
  refine h.read.device.imp_right fun ⟨i, hi, hjob⟩ => ⟨i, Nat.lt_of_le_of_ne hi ?_, hjob⟩
  rintro rfl
  exact hne (Option.some.inj (hj.symm.trans hjob))

theorem read_of_loaded {l : List Deed} {doc : Document}
    (hc : Course Deed.Turns Drifts v
      (.request .cursor (.ok p) :: .request .load (.ok doc) :: l) v')
    (hn : n ≤ v.jobs.length) (hf : v.scheduler.Fit v.shown) :
    ∃ v₁ : View, v₁.Read n p doc.device ∧ v₁.scheduler.Fit v₁.shown ∧
      Course Deed.Turns Drifts v₁ l v' := by
  obtain ⟨v₁, v₂, ⟨hn₁, hf₁⟩, hcursor, hc⟩ := hc.head
    (I := fun v => n ≤ v.jobs.length ∧ v.scheduler.Fit v.shown)
    (fun _ _ hd h => ⟨Nat.le_trans h.1 hd.grows.length_le, h.2.moves hd.screen⟩) ⟨hn, hf⟩
  have hjobs₂ : v₂.jobs = v₁.jobs := hcursor.jobs.trans (List.append_nil _)
  obtain ⟨v₃, v₄, ⟨hcursor₃, hn₃, hf₃⟩, hload, hc⟩ := hc.head
    (I := fun v => v.core.cursor = some p ∧ n ≤ v.jobs.length ∧ v.scheduler.Fit v.shown)
    (fun _ _ hd ⟨hcursor, hn, hf⟩ =>
      ⟨hd.core.2.2 p hcursor, Nat.le_trans hn hd.grows.length_le, hf.moves hd.screen⟩)
    ⟨by rw [hcursor.core]; rfl, hjobs₂ ▸ hn₁, fit_turns hf₁ hcursor fun _ => rfl⟩
  have hjobs₄ : v₄.jobs = v₃.jobs := hload.jobs.trans (List.append_nil _)
  have hdoc : doc = v₃.core.document := hload.fits
  refine ⟨v₄, ⟨?_, hjobs₄ ▸ hn₃, .inl ?_⟩, fit_turns hf₃ hload fun _ => rfl, hc⟩
  · rw [hload.core]
    exact hcursor₃
  · rw [hload.core, hdoc]
    rfl

theorem passing_of_passed {l : List Deed} (hp : Passed p device l)
    (hc : Course Deed.Turns Drifts v l v') (hr : v.Read n p device)
    (hf : v.scheduler.Fit v.shown) : v'.Passing n p device := by
  cases hp with
  | idle hidle =>
    exact hc.stays (I := Passing n p device) (fun _ _ hd h => h.drifts hd)
      ⟨hr, fun hne => absurd hidle hne, hf⟩
  | joined hne pass ends =>
    obtain ⟨v₁, v₂, ⟨hr₁, hf₁⟩, hissue, hc⟩ := hc.head
      (I := fun v => v.Read n p device ∧ v.scheduler.Fit v.shown)
      (fun _ _ hd h => ⟨h.1.drifts hd, h.2.moves hd.screen⟩) ⟨hr, hf⟩
    refine hc.keeps (I := Passing n p device) (fun _ _ hd h => h.drifts hd) ?_
      ⟨hr₁.turns hissue trivial, fun _ => hissue.step, fit_turns hf₁ hissue fun _ => rfl⟩
    intro d hd v v' hturns h
    obtain rfl := List.mem_singleton.mp hd
    exact h.turns hturns trivial (fun _ => rfl) fun _ => rfl

theorem enforced_of_left (hidle : (LockMode.resolve p device).isActive = false)
    (hc : Course Deed.Turns Drifts v [.act .cancel (), .request (.call .exit) (.ok ())] v')
    (h : v.Passing n p device) : v'.Enforced n p device := by
  obtain ⟨v₁, v₂, h₁, hcancel, hc⟩ := hc.head (I := Passing n p device)
    (fun _ _ hd h => h.drifts hd) h
  have h₂ : v₂.Passing n p device := h₁.turns hcancel trivial (fun _ => rfl) fun _ => rfl
  have hrested : v₂.scheduler.Rested := by
    obtain ⟨now, hs⟩ := hcancel.scheduler.of_cancel
    rw [hs]
    exact h₁.fit.cancel now
  -- No work is left that could enter a mode again once this one is left.
  obtain ⟨v₃, v₄, ⟨h₃, hrested₃⟩, hexit, hc⟩ := hc.head
    (I := fun v => v.Passing n p device ∧ v.scheduler.Rested)
    (fun _ _ hd h => ⟨h.1.drifts hd, (h.2.moves hd.screen).1⟩) ⟨h₂, hrested⟩
  refine hc.stays (I := Enforced n p device) (fun _ _ hd h => h.drifts hd)
    ⟨h₃.read.turns hexit rfl, h₃.issued.turns hexit fun _ => rfl, ?_⟩
  rw [Scheduler.Presents, if_neg (by simp [hidle]), hexit.scheduler.of_request]
  exact ⟨hrested₃, hexit.shown⟩

theorem enforced_of_scheduled {id : Nat} (hactive : (LockMode.resolve p device).isActive = true)
    (hc : Course Deed.Turns Drifts v [.request (.ask .userUnlocked) true,
      .act (.schedule (LockMode.resolve p device)) id] v')
    (h : v.Passing n p device) : v'.Enforced n p device := by
  obtain ⟨v₁, v₂, h₁, hask, hc⟩ := hc.head (I := Passing n p device)
    (fun _ _ hd h => h.drifts hd) h
  obtain ⟨v₃, v₄, h₃, hschedule, hc⟩ := hc.head (I := Passing n p device)
    (fun _ _ hd h => h.drifts hd) (h₁.turns hask trivial (fun _ => rfl) fun _ => rfl)
  refine hc.stays (I := Enforced n p device) (fun _ _ hd h => h.drifts hd)
    ⟨h₃.read.turns hschedule trivial, h₃.issued.turns hschedule fun _ => rfl, ?_⟩
  obtain ⟨now, fresh, hs⟩ := hschedule.scheduler.of_schedule
  rw [Scheduler.Presents, if_pos hactive, hschedule.shown, hs]
  exact h₃.fit.schedule now fresh _

theorem enforced_of_presented {l : List Deed}
    (hp : Presented (LockMode.resolve p device) l) (hl : ∀ d ∈ l, d.Obliging)
    (hc : Course Deed.Turns Drifts v l v') (h : v.Passing n p device) :
    v'.Enforced n p device := by
  cases hp with
  | deferred hactive =>
    have hunlocked : false = true := hl _ List.mem_cons_self
    cases hunlocked
  | left hidle x =>
    obtain rfl : x = .ok () := hl _ (List.mem_cons_of_mem _ List.mem_cons_self)
    exact enforced_of_left hidle hc h
  | scheduled hactive id => exact enforced_of_scheduled hactive hc h

theorem enforced_of_pass {l : List Deed} {mode : LockMode} (he : Ends (enforce false) l (.ok mode))
    (hl : ∀ d ∈ l, d.Obliging) (hc : Course Deed.Turns Drifts v l v') (hn : n ≤ v.jobs.length)
    (hf : v.scheduler.Fit v.shown) :
    ∃ p device, v'.Enforced n p device ∧ mode = LockMode.resolve p device := by
  obtain ⟨p, doc, k, t, rfl, hmode, hpass, hpresent⟩ := ends_enforce he
  obtain rfl : mode = LockMode.resolve p doc.device := by simpa using hmode
  obtain ⟨v₁, hr₁, hf₁, hc⟩ := read_of_loaded hc hn hf
  obtain ⟨v₂, hk, hc⟩ := hc.split
  have h₂ := passing_of_passed hpass hk hr₁ hf₁
  obtain ⟨v₃, v₄, h₃, hcount, hc⟩ := hc.head (I := Passing n p doc.device)
    (fun _ _ hd h => h.drifts hd) h₂
  have h₄ := h₃.turns hcount trivial (fun _ => rfl) fun _ => rfl
  exact ⟨p, doc.device, enforced_of_presented hpresent (fun d hd => hl d (by simp [hd])) hc h₄, rfl⟩

theorem grows_of_course {l : List Deed} (hc : Course Deed.Turns Drifts v l v') :
    v.jobs <+: v'.jobs := by
  refine hc.keeps (I := fun v₁ => v.jobs <+: v₁.jobs) (fun _ _ hd h => ?_) (fun _ _ _ _ ht h => ?_)
    List.prefix_rfl
  · exact h.trans hd.grows
  · exact h.trans ⟨_, ht.jobs.symm⟩

end View

structure View.Untouched (v : View) : Prop where
  enforced : v.enforced = false
  rested : v.scheduler.Rested

theorem View.Untouched.drifts {v v' : View} (h : v.Untouched) (hd : v.Drifts v') : v'.Untouched :=
  ⟨hd.enforced.trans h.enforced, (h.rested.moves hd.screen).1⟩

theorem View.Untouched.turns {v v' : View} {d : Deed} (h : v.Untouched) (ht : d.Turns v v')
    (ha : d.Aside) : v'.Untouched := by
  refine ⟨?_, ?_⟩
  · rw [ht.enforced, ha.counts, h.enforced]
  · rw [ha.scheduler _ _ ht.scheduler]
    exact h.rested

namespace Machine

variable {d : Document} {m₀ b m m' : Machine} {now : Timestamp} {a : Action} {l : List Deed}
  {x₀ x x' y : Option LockMode}

inductive Consistent (m : Machine) (shown : Option LockMode) : Prop
  | untouched (h : (m.view shown).Untouched) (hv : m.engine.policy.value = none)
  | enforced {p : ProvisionState} {device : DeviceState}
      (h : (m.view shown).Enforced m.engine.policy.ended.length p device)
      (hv : m.engine.policy.value = none ∨
        m.engine.policy.value = some (LockMode.resolve p device))

theorem Consistent.fit (h : m.Consistent x) : (m.view x).scheduler.Fit (m.view x).shown := by
  cases h with
  | untouched h => exact .inl h.rested
  | enforced h => exact h.screen.fit

theorem Consistent.beside (h : m.Consistent x) (hm : m.Obliged) (hs : m.step? now a = some m')
    (ho : Obliges x m now a m' x') (ha : a.lane? ≠ some .policy) : m'.Consistent x' := by
  have hd := hm.drifts hs ho ha
  have hframe := step_frame hs ho.cases.2
  have hvalue : m'.engine.policy.value = m.engine.policy.value := hframe.value ha
  have hended : m'.engine.policy.ended = m.engine.policy.ended := hframe.ended ha
  cases h with
  | untouched h hv => exact .untouched (h.drifts hd) (hvalue.trans hv)
  | enforced h hv => exact .enforced (hended ▸ h.drifts hd) (hvalue ▸ hv)

theorem Consistent.left {j : PolicyJob} (h : b.Consistent y)
    (hc : Course Deed.Turns View.Drifts (b.view y) l (m.view x))
    (hl : ∀ d ∈ l, d.Within .enforcing ∧ d.Aside)
    (hj : (b.view y).jobs[b.engine.policy.ended.length]? = some j) (hne : j ≠ .enforce)
    (he : m.engine.policy.ended.length = b.engine.policy.ended.length + 1)
    (hv : m.engine.policy.value = b.engine.policy.value ∨ m.engine.policy.value = none) :
    m.Consistent x := by
  cases h with
  | untouched h hvalue =>
    refine .untouched (hc.keeps (fun _ _ hd h => h.drifts hd) ?_ h) ?_
    · exact fun d hd _ _ ht h => h.turns ht (hl d hd).2
    · exact hv.elim (·.trans hvalue) id
  | enforced h hvalue =>
    refine .enforced ?_ (hv.elim (fun hsame => hsame ▸ hvalue) .inl)
    rw [he]
    refine hc.keeps (fun _ _ hd h => h.drifts hd) ?_ (h.next hj hne)
    exact fun d hd _ _ ht h => h.turns ht (hl d hd).1 (hl d hd).2

theorem leaves_of_advancing {d : Deed} (h : d.Within .advancing) (shown : Option LockMode) :
    d.leaves shown = shown := by
  cases d with
  | act a x => rfl
  | request r x =>
    cases r with
    | call k =>
      obtain ⟨k, rfl⟩ := h
      rfl
    | _ => rfl

theorem Consistent.outcome {j : PolicyJob} {value : Option LockMode} (h : b.Consistent y)
    (hc : Course Deed.Turns View.Drifts (b.view y) l (m.view x)) (hl : ∀ d ∈ l, d.Obliging)
    (hj : (b.view y).jobs[b.engine.policy.ended.length]? = some j)
    (hlen : m.engine.policy.ended.length = b.engine.policy.ended.length + 1)
    (ho : j.Outcome b.engine.policy.value l value) (hv : m.engine.policy.value = value) :
    m.Consistent x := by
  cases ho with
  | left hne hkept => exact h.left hc (by simp) hj hne hlen (hv ▸ hkept)
  | rejected hne p event =>
    refine h.left hc ?_ hj hne hlen (.inl hv)
    simp only [List.mem_cons, List.not_mem_nil, or_false]
    rintro d (rfl | rfl)
    · exact ⟨trivial, .of_request _ (by simp)⟩
    · exact ⟨trivial, .of_act _ id (by simp) (by simp)⟩
  | enforced hk he =>
    obtain ⟨v, hadvance, hpass⟩ := hc.split
    -- The job has its own place, so what follows a later change is to come after it.
    have hn : b.engine.policy.ended.length + 1 ≤ v.jobs.length :=
      Nat.le_trans (List.getElem?_eq_some_iff.mp hj).1 (View.grows_of_course hadvance).length_le
    have hfit := hadvance.keeps (I := fun v => v.scheduler.Fit v.shown)
      (fun _ _ hd h => h.moves hd.screen)
      (fun d hd _ _ ht h => View.fit_turns h ht (leaves_of_advancing (hk d hd))) h.fit
    obtain ⟨p, device, henforced, rfl⟩ := View.enforced_of_pass he
      (fun d hd => hl d (List.mem_append_right _ hd)) hpass hn hfit
    exact .enforced (hlen ▸ henforced) (.inr hv)

theorem Consistent.job (h : b.Consistent y) (hb : b.Obliged)
    (hw : WorksWith .policy Obliges b y l m x) (hm : m.Idle .policy) : m.Consistent x := by
  obtain ⟨hc, hobliging, -⟩ := hw.course hb
  have hworks := hw.works (P := fun a => a.Obliging ∨ ∃ t, a = .activation t)
    fun _ _ _ _ _ _ ho => ho.cases.1
  obtain ⟨j, hj, hspan⟩ := hworks.span hb.reachable.usual
  have hplace := (JobQueue.lt_of_next hj).1
  have hcritical (cause : String) : j ≠ .critical cause := by
    rintro rfl
    exact hb.jobs cause (List.mem_of_getElem? hplace)
  obtain ⟨e, hend, hended, hvalue⟩ := hspan.exists_ending hm
  have hlen : m.engine.policy.ended.length = b.engine.policy.ended.length + 1 := by
    have hlen := congrArg List.length hended
    rwa [List.length_append, List.length_singleton] at hlen
  have hends {r : Except Fault (Option LockMode × Except Fault Reply)}
      (hr : Ends (b.opening .policy j) l r) : ∃ value reply, r = .ok (value, reply) ∧
        j.Outcome b.engine.policy.value l value :=
    PolicyJob.outcome hcritical hr fun d hd => (hobliging d hd).served
  cases hend with
  | done hr =>
    obtain ⟨value, reply, hok, ho⟩ := hends hr
    cases hok
    exact h.outcome hc hobliging hplace hlen ho hvalue
  | failed hr =>
    obtain ⟨value, reply, hok, -⟩ := hends hr
    cases hok
  | panicked _ hob hpanic =>
    rcases hob with hob | ⟨t, ht⟩
    · exact absurd hob.1.calm hpanic
    · cases ht

theorem Fresh.obliged {d : Document} (h : Fresh d m) : m.Obliged where
  reachable := ⟨d, m, h, .refl m⟩
  follows := h.follows _
  jobs := fun cause hmem => by
    rw [h.engine.1] at hmem
    cases hmem
  applied := h.applied

theorem Fresh.consistent {d : Document} (h : Fresh d m) (shown : Option LockMode) :
    m.Consistent shown := by
  have htrace : m.world.trace = [] := by
    obtain ⟨_, _, _, -, rfl⟩ := h
    rfl
  refine .untouched ⟨?_, fun w hw => ?_⟩ ?_
  · rw [view, htrace]
    rfl
  · rw [view, h.engine.1] at hw
    cases hw
  · rw [h.engine.1]

theorem ReachesWith.obliged (h : ReachesWith Obliges m₀ x₀ m x) (h₀ : m₀.Obliged) :
    m.Obliged := by
  induction h with
  | refl => exact h₀
  | step _ hs hx ih => exact ih.step hs hx

theorem ReachesWith.consistent (h : ReachesWith Obliges m₀ x₀ m x) (hf : Fresh d m₀)
    (hm : m.Idle .policy) : m.Consistent x := by
  have hbetween : Between .policy Obliges m₀ x₀ Consistent m x := h.between
    ⟨hf.idle _, hf.consistent x₀⟩
    (fun _ _ _ _ _ _ _ _ ho => absurd rfl ho.cases.2)
    (fun m x now a m' x' hr _ hI ha _ hs ho => hI.beside (hr.obliged hf.obliged) hs ho ha)
    (fun b y l m x hr _ hI hw hm => hI.job (hr.obliged hf.obliged) hw hm)
  rcases hbetween with ⟨-, hI⟩ | ⟨hbusy, -⟩
  · exact hI
  · exact absurd hm hbusy

/-- Once every operation is answered and the activation work has ended, the device is in the state
that its pair of states asks for, if a pass was ever made: the step issued last to every capability,
the cached mode and the mode in effect. -/
theorem quiescent_consistency (hf : Fresh d m₀) (h : ReachesWith Obliges m₀ x₀ m x)
    (hq : m.Quiescent) (hs : ∀ w, m.engine.scheduler.slot = some w → w.status.isTerminal = true)
    (he : ∃ success, .counted (.enforcement success) ∈ m.world.trace) :
    ∃ p, m.engine.cursor = some p ∧
      (PolicyStep.resolve p m.world.document.device ≠ .idle →
        ∃ pass, m.engine.passes.getLast? = some pass ∧
          pass.step = .resolve p m.world.document.device ∧
            pass.ends.length = m.engine.capabilities.length) ∧
      (m.engine.policy.value = none ∨
        m.engine.policy.value = some (LockMode.resolve p m.world.document.device)) ∧
      x = if (LockMode.resolve p m.world.document.device).isActive then
        some (LockMode.resolve p m.world.document.device) else none := by
  have hm := h.obliged hf.obliged
  cases h.consistent hf (hq.idle .policy) with
  | untouched hu =>
    obtain ⟨success, hmem⟩ := he
    have hnone : m.world.trace.any Event.isEnforcement = false := hu.enforced
    rw [List.any_eq_false] at hnone
    exact absurd rfl (hnone _ hmem)
  | enforced henforced hvalue =>
    rename_i p device
    -- No enforcement is to come, so the device state is still the one that was read.
    have hdevice : m.world.document.device = device := by
      rcases henforced.read.device with hsame | ⟨i, hi, hj⟩
      · exact hsame
      · have hlast := hq.all_ended hm.reachable.ordered .policy
        have hlt := (List.getElem?_eq_some_iff.mp hj).1
        exact absurd (Nat.le_trans (Nat.le_of_eq hlast.symm) hi) (Nat.not_le_of_gt hlt)
    refine ⟨p, henforced.read.cursor, fun hne => ?_, hdevice ▸ hvalue, ?_⟩
    · have hstep : (m.engine.passes.map Pass.step).getLast? = some (.resolve p device) :=
        henforced.issued (hdevice ▸ hne)
      rw [List.getLast?_map, Option.map_eq_some_iff] at hstep
      obtain ⟨pass, hlast, hpass⟩ := hstep
      exact ⟨pass, hlast, hdevice ▸ hpass, (hm.applied pass (List.mem_of_getLast? hlast)).1⟩
    · rw [hdevice]
      exact henforced.screen.settled hs

def shownAfter? (m : Machine) (now : Timestamp) (shown : Option LockMode) :
    Action → Option (Option LockMode)
  | .activation .start => some shown
  | .activation .entered => m.engine.scheduler.slot.map fun w => some w.mode
  | .activation (.observed mode) => if mode = shown then some shown else none
  | .activation _ => none
  | a => if a.Obliging then some ((m.log now a).foldl Deed.leaves shown) else none

theorem obliges_of_shownAfter {shown shown' : Option LockMode}
    (h : m.shownAfter? now shown a = some shown') (m' : Machine) :
    Obliges shown m now a m' shown' := by
  unfold shownAfter? at h
  split at h
  · cases h
    exact .task .still .start
  · obtain ⟨w, hw, rfl⟩ := Option.map_eq_some_iff.mp h
    exact .task .still (.entered hw)
  · split at h
    · rename_i hmode
      cases h
      subst hmode
      exact .task .still .observed
    · cases h
  · cases h
  · split at h
    · rename_i ha
      cases h
      exact .other ha .still
    · cases h

def obligingRun? (now : Timestamp) (m : Machine) (shown : Option LockMode) :
    List Action → Option (Machine × Option LockMode)
  | [] => some (m, shown)
  | a :: as => do
    let shown' ← m.shownAfter? now shown a
    (← m.step? now a).obligingRun? now shown' as

theorem ReachesWith.obligingRun {as : List Action} (h : ReachesWith Obliges m₀ x₀ m x)
    (hr : m.obligingRun? now x as = some (m', x')) : ReachesWith Obliges m₀ x₀ m' x' := by
  induction as generalizing m x with
  | nil =>
    cases hr
    exact h
  | cons a as ih =>
    obtain ⟨x₁, hx, hr⟩ := Option.bind_eq_some_iff.mp hr
    obtain ⟨m₁, hs, hr⟩ := Option.bind_eq_some_iff.mp hr
    exact ih (h.step hs (obliges_of_shownAfter hx m₁)) hr

def overtaken : List Action :=
  [Action.call (.event .ready), .start .policy] ++ Action.goesOn .policy 6 ++
    [Action.callbackEnds 0 0 (.returned true)] ++ Action.goesOn .policy 2 ++
      [Action.activation .start, .call (.event .kiosk), .start .policy] ++
        Action.goesOn .policy 4 ++ [Action.call (.request .lock), .start .requests] ++
          Action.goesOn .requests 3 ++ [Action.callbackEnds 1 0 (.returned true)] ++
            Action.goesOn .policy 2 ++ [Action.activation .start, .start .policy] ++
              Action.goesOn .policy 2 ++ [Action.callbackEnds 2 0 (.returned true)] ++
                Action.goesOn .policy 2 ++ Action.goesOn .requests 1 ++
                  [Action.activation .entered, .start .policy] ++ Action.goesOn .policy 5 ++
                    [Action.callbackEnds 3 0 (.returned true)] ++ Action.goesOn .policy 2 ++
                      Action.goesOn .requests 1 ++
                        [Action.resume (.client 0) {}, .resume (.client 1) {},
                          .resume (.client 2) {}, .activation .start, .activation .entered,
                          .activation (.observed (some .lockUi))]

theorem exists_overtaken :
    ∃ m, ReachesWith Obliges (plain ["restrictions"]) none m (some .lockUi) ∧ m.Quiescent ∧
      (∀ w, m.engine.scheduler.slot = some w → w.status.isTerminal = true) ∧
        .counted (.enforcement true) ∈ m.world.trace ∧ m.engine.cursor = some .succeeded ∧
          m.world.document.device = .locked := by
  have hrun : ((plain ["restrictions"]).obligingRun? epoch none overtaken).any (fun r =>
      r.1.quiet && decide (r.2 = some .lockUi) &&
        r.1.engine.scheduler.slot.all (·.status.isTerminal) &&
          decide (.counted (.enforcement true) ∈ r.1.world.trace) &&
            decide (r.1.engine.cursor = some .succeeded) &&
              decide (r.1.world.document.device = .locked)) = true := rfl
  obtain ⟨⟨m, shown⟩, hr, hm⟩ := (Option.any_eq_true _ _).mp hrun
  simp only [Bool.and_eq_true, decide_eq_true_eq, Option.all_eq_true] at hm
  obtain ⟨⟨⟨⟨⟨hquiet, rfl⟩, hended⟩, hcount⟩, hcursor⟩, hdevice⟩ := hm
  exact ⟨m, .obligingRun .refl hr, quiescent_of_quiet hquiet, hended, hcount, hcursor, hdevice⟩

theorem quiescent_consistency_locked :
    ∃ m, ReachesWith Obliges (plain ["restrictions"]) none m (some .lockUi) ∧ m.Quiescent ∧
      m.engine.cursor = some .succeeded ∧ m.world.document.device = .locked ∧
        (∃ pass, m.engine.passes.getLast? = some pass ∧ pass.step = .locked) ∧
          (m.engine.policy.value = none ∨ m.engine.policy.value = some .lockUi) := by
  obtain ⟨m, hr, hq, hended, hcount, hcursor, hdevice⟩ := exists_overtaken
  obtain ⟨p, hp, hstep, hcached, -⟩ :=
    quiescent_consistency (plain_fresh _) hr hq hended ⟨true, hcount⟩
  obtain rfl := Option.some.inj (hp.symm.trans hcursor)
  rw [hdevice] at hstep hcached
  obtain ⟨pass, hlast, hissued, -⟩ := hstep (by decide)
  exact ⟨m, hr, hq, hcursor, hdevice, ⟨pass, hlast, hissued⟩, hcached⟩

end Machine

end DeviceLock
