import DeviceLock.Proofs.Engine.Order

/-!
The life of one job: `Machine.Works` leads from the state in which its lane is idle through the
steps of the job, and of all other tasks between them, up to the next job of the lane.
`Works.span` says what the job has done, and `ReachesWith.between` takes an invariant of the idle
lane from job to job, also one that speaks of a companion of the machine.
-/

namespace DeviceLock

inductive Ending.Of {σ : Type} (C : Conduct → Prop) (p : Program (σ × Except Fault Reply))
    (l : List Deed) : Ending σ (Except Fault Reply) Fault → Prop
  | done {v : σ} {a : Except Fault Reply} (h : Program.Ends p l (.ok (v, a))) : Of C p l (.done v a)
  | failed {f : Fault} (h : Program.Ends p l (.error f)) : Of C p l (.failed f)
  | panicked {r : Request} {next : r.Answer → Program (σ × Except Fault Reply)} {c : Conduct}
      (h : Program.Walk p l (.wait r next)) (hc : C c) (hn : ¬ c.Calm) : Of C p l .panicked

theorem Ending.Of.walk {σ : Type} {C : Conduct → Prop} {p : Program (σ × Except Fault Reply)}
    {l : List Deed} {e : Ending σ (Except Fault Reply) Fault} (h : Of C p l e) :
    ∃ q, Program.Walk p l q := by
  cases h with
  | done h => exact ⟨_, h⟩
  | failed h => exact ⟨_, h⟩
  | panicked h => exact ⟨_, h⟩

/-- How something that is kept beside the machine may change when the machine takes a step. -/
abbrev Companion (X : Type) := X → Machine → Timestamp → Action → Machine → X → Prop

namespace Machine

variable {P : Action → Prop} {lane : Lane} {m₀ b m m₁ m' : Machine} {now : Timestamp} {a : Action}
  {c : Conduct} {l : List Deed}

inductive Works (lane : Lane) (P : Action → Prop) (b : Machine) : List Deed → Machine → Prop
  | start {now : Timestamp} {m : Machine} (hp : P (.start lane))
      (h : b.step? now (.start lane) = some m) : Works lane P b (b.log now (.start lane)) m
  | own {now : Timestamp} {l : List Deed} {m m' : Machine} {c : Conduct} (hw : Works lane P b l m)
      (hp : P (.resume (.job lane) c)) (h : m.step? now (.resume (.job lane) c) = some m') :
      Works lane P b (l ++ m.log now (.resume (.job lane) c)) m'
  | beside {now : Timestamp} {l : List Deed} {m m' : Machine} {a : Action}
      (hw : Works lane P b l m) (hp : P a) (ha : a.lane? ≠ some lane) (hr : a ≠ .restart)
      (h : m.step? now a = some m') : Works lane P b l m'

inductive Goes (lane : Lane) (P : Action → Prop) (m₁ : Machine) : List Deed → Machine → Prop
  | refl : Goes lane P m₁ [] m₁
  | own {now : Timestamp} {l : List Deed} {m m' : Machine} {c : Conduct} (hg : Goes lane P m₁ l m)
      (hp : P (.resume (.job lane) c)) (h : m.step? now (.resume (.job lane) c) = some m') :
      Goes lane P m₁ (l ++ m.log now (.resume (.job lane) c)) m'
  | beside {now : Timestamp} {l : List Deed} {m m' : Machine} {a : Action}
      (hg : Goes lane P m₁ l m) (hp : P a) (ha : a.lane? ≠ some lane) (hr : a ≠ .restart)
      (h : m.step? now a = some m') : Goes lane P m₁ l m'

inductive ReachesWith {X : Type} (C : Companion X) (m₀ : Machine) (x₀ : X) : Machine → X → Prop
  | refl : ReachesWith C m₀ x₀ m₀ x₀
  | step {m m' : Machine} {x x' : X} {now : Timestamp} {a : Action}
      (h : ReachesWith C m₀ x₀ m x) (hs : m.step? now a = some m') (hx : C x m now a m' x') :
      ReachesWith C m₀ x₀ m' x'

inductive WorksWith {X : Type} (lane : Lane) (C : Companion X) (b : Machine) (y : X) :
    List Deed → Machine → X → Prop
  | start {now : Timestamp} {m : Machine} {x : X} (h : b.step? now (.start lane) = some m)
      (hx : C y b now (.start lane) m x) : WorksWith lane C b y (b.log now (.start lane)) m x
  | own {now : Timestamp} {l : List Deed} {m m' : Machine} {x x' : X} {c : Conduct}
      (hw : WorksWith lane C b y l m x) (h : m.step? now (.resume (.job lane) c) = some m')
      (hx : C x m now (.resume (.job lane) c) m' x') :
      WorksWith lane C b y (l ++ m.log now (.resume (.job lane) c)) m' x'
  | beside {now : Timestamp} {l : List Deed} {m m' : Machine} {x x' : X} {a : Action}
      (hw : WorksWith lane C b y l m x) (ha : a.lane? ≠ some lane) (hr : a ≠ .restart)
      (h : m.step? now a = some m') (hx : C x m now a m' x') : WorksWith lane C b y l m' x'

inductive Stage (lane : Lane) (P : Action → Prop) (b : Machine) (j : lane.Work) (l : List Deed)
    (m : Machine) : Prop
  | running {r : Request} {next : r.Answer → Program (lane.Value × Except Fault Reply)}
      (hr : (m.engine.queue lane).running = some (.wait r next))
      (h : Program.Walk (b.opening lane j) l (.wait r next))
      (he : (m.engine.queue lane).ended = (b.engine.queue lane).ended)
      (hv : (m.engine.queue lane).value = (b.engine.queue lane).value)
  | ended {e : Ending lane.Value (Except Fault Reply) Fault} (hr : m.Idle lane)
      (h : Ending.Of (fun c => P (.resume (.job lane) c)) (b.opening lane j) l e)
      (he : (m.engine.queue lane).ended = (b.engine.queue lane).ended ++ [e])
      (hv : (m.engine.queue lane).value = e.value (b.engine.queue lane).value)

structure Span (lane : Lane) (P : Action → Prop) (b : Machine) (j : lane.Work) (l : List Deed)
    (m : Machine) : Prop where
  story : lane.Story b.core l m.core
  config : m.engine.config = b.engine.config
  submitted : ∃ jobs, (m.engine.queue lane).submitted = (b.engine.queue lane).submitted ++ jobs
  issued : ∀ d ∈ l, ∀ n, d.issued? = some n → n < m.engine.passes.length
  keeps : ∀ j x, .act (.submit j) x ∈ l → m.engine.Keeps x j
  stage : Stage lane P b j l m

theorem beside_spares (hm : m.Follows .usual) (h : m.step? now a = some m')
    (ha : a.lane? ≠ some lane) (hr : a ≠ .restart) : lane.Spares m.core m'.core := by
  apply Lane.spares_of_tells (step_frame h hr).core
  intro d hd
  have hw := (hm.step h (admits_usual m _ a)).1 d hd
  unfold Regime.of at hw
  split at hw
  · rename_i other ho
    exact Lane.not_owns_of_within (fun he => ha (he ▸ ho)) hw
  · exact Lane.not_owns_of_caller hw

theorem exists_write (hm : m.Follows .usual) (hs : m.step? now a = some m') (hr : a ≠ .restart)
    (hd : m'.world.document.device ≠ m.world.document.device) :
    ∃ c s u, a = .resume (.job .requests) c ∧
      .request (.write (.device s)) (.ok u) ∈ m.log now a := by
  have hlane : a.lane? = some .requests :=
    Classical.byContradiction fun hne => hd (beside_spares hm hs hne hr).2
  obtain ⟨s, u, hmem⟩ : ∃ s u, .request (.write (.device s)) (.ok u) ∈ m.log now a := by
    apply Classical.byContradiction
    exact fun hne => hd ((step_frame hs hr).core.device fun s u hmem => hne ⟨s, u, hmem⟩)
  rcases Action.eq_of_lane? hlane with rfl | ⟨c, rfl⟩
  · obtain ⟨j, hj, -⟩ := start_cases hs
    simp only [log, hj] at hmem
    cases deeds_acts _ _ _ _ hmem
  · exact ⟨c, s, u, rfl, hmem⟩

theorem Stage.settle {j : lane.Work} {k : List Deed} {jobs : List lane.Work}
    {p : Program (lane.Value × Except Fault Reply)}
    {progress : Progress (lane.Value × Except Fault Reply)} {q : Queue lane.Value lane.Work}
    (hq : m'.engine.queue lane = (q.add jobs).settle progress)
    (hw : Program.Walk (b.opening lane j) l p)
    (hp : progress.After p k ∨
      progress = .panicked ∧ k = [] ∧ (∃ r next, p = .wait r next) ∧
        ∃ c, P (.resume (.job lane) c) ∧ ¬ c.Calm)
    (he : q.ended = (b.engine.queue lane).ended) (hv : q.value = (b.engine.queue lane).value) :
    Stage lane P b j (l ++ k) m' := by
  rcases hp with hp | ⟨rfl, rfl, ⟨r, next, rfl⟩, c, hc, hn⟩
  · cases hp with
    | running h =>
      refine .running (by rw [hq]; rfl) (hw.append h) ?_ ?_
      · rw [hq]
        exact he
      · rw [hq]
        exact hv
    | ended h =>
      rename_i r
      rcases r with f | ⟨v, x⟩
      · refine .ended (e := .failed f) ?_ (.failed (hw.append h)) ?_ ?_
        · simp [Idle, hq, JobQueue.settle, JobQueue.finish]
        · simp [hq, JobQueue.settle, JobQueue.finish, he]
        · simp [hq, JobQueue.settle, JobQueue.finish, hv]
      · refine .ended (e := .done v x) ?_ (.done (hw.append h)) ?_ ?_
        · simp [Idle, hq, JobQueue.settle, JobQueue.finish]
        · simp [hq, JobQueue.settle, JobQueue.finish, he]
        · simp [hq, JobQueue.settle, JobQueue.finish, Ending.value]
  · rw [List.append_nil]
    refine .ended (e := .panicked) ?_ (.panicked hw hc hn) ?_ ?_
    · simp [Idle, hq, JobQueue.settle, JobQueue.finish]
    · simp [hq, JobQueue.settle, JobQueue.finish, he]
    · simp [hq, JobQueue.settle, JobQueue.finish, hv, Ending.value]

theorem Span.walk {j : lane.Work} (h : Span lane P b j l m) :
    ∃ q, Program.Walk (b.opening lane j) l q := by
  cases h.stage with
  | running _ hw => exact ⟨_, hw⟩
  | ended _ he => exact he.walk

theorem Span.ending {j : lane.Work} {e : Ending lane.Value (Except Fault Reply) Fault}
    (h : Span lane P b j l m)
    (he : (m.engine.queue lane).ended = (b.engine.queue lane).ended ++ [e]) :
    Ending.Of (fun c => P (.resume (.job lane) c)) (b.opening lane j) l e := by
  cases h.stage with
  | running _ _ hsame =>
    have hlen := congrArg List.length (hsame.symm.trans he)
    rw [List.length_append, List.length_singleton] at hlen
    omega
  | ended _ hend hmore =>
    obtain rfl := List.singleton_inj.mp (List.append_cancel_left (hmore.symm.trans he))
    exact hend

theorem Span.value {j : lane.Work} {e : Ending lane.Value (Except Fault Reply) Fault}
    (h : Span lane P b j l m)
    (he : (m.engine.queue lane).ended = (b.engine.queue lane).ended ++ [e]) :
    (m.engine.queue lane).value = e.value (b.engine.queue lane).value := by
  cases h.stage with
  | running _ _ hsame => simp [hsame] at he
  | ended _ _ hmore hv =>
    obtain rfl := List.singleton_inj.mp (List.append_cancel_left (hmore.symm.trans he))
    exact hv

theorem Span.running {j : lane.Work} {p : Program (lane.Value × Except Fault Reply)}
    (h : Span lane P b j l m) (hr : (m.engine.queue lane).running = some p) :
    Program.Walk (b.opening lane j) l p := by
  cases h.stage with
  | running hrun hw =>
    obtain rfl := Option.some.inj (hrun.symm.trans hr)
    exact hw
  | ended hidle => exact absurd hidle (not_idle_of_running hr)

theorem Span.exists_ending {j : lane.Work} (h : Span lane P b j l m) (hm : m.Idle lane) :
    ∃ e, Ending.Of (fun c => P (.resume (.job lane) c)) (b.opening lane j) l e ∧
      (m.engine.queue lane).ended = (b.engine.queue lane).ended ++ [e] ∧
        (m.engine.queue lane).value = e.value (b.engine.queue lane).value := by
  cases h.stage with
  | running hr => exact absurd hm (not_idle_of_running hr)
  | ended _ hend he hv => exact ⟨_, hend, he, hv⟩

theorem Span.next {j : lane.Work} (h : Span lane P b j l m) (hm : ¬ m.Idle lane)
    (hj : (b.engine.queue lane).next? = some j) :
    (m.engine.queue lane).ended = (b.engine.queue lane).ended ∧
      (m.engine.queue lane).submitted[(m.engine.queue lane).ended.length]? = some j := by
  cases h.stage with
  | ended hidle => exact absurd hidle hm
  | running _ _ he =>
    obtain ⟨jobs, hjobs⟩ := h.submitted
    refine ⟨he, ?_⟩
    rw [he]
    exact JobQueue.getElem?_of_grows ⟨jobs, hjobs.symm⟩ (JobQueue.lt_of_next hj).1

theorem Span.outcomes {j : lane.Work} {e : Ending lane.Value (Except Fault Reply) Fault}
    (h : Span lane P b j l m) (hb : b.Ordered) (hj : (b.engine.queue lane).next? = some j)
    (he : (m.engine.queue lane).ended = (b.engine.queue lane).ended ++ [e]) :
    (m.engine.queue lane).outcomes = (b.engine.queue lane).outcomes ++ [(j, e)] := by
  obtain ⟨jobs, hjobs⟩ := h.submitted
  exact JobQueue.outcomes_next (hb lane) ⟨jobs, hjobs.symm⟩ (JobQueue.lt_of_next hj).1 he

theorem idle_of_next {j : lane.Work} (h : (m.engine.queue lane).next? = some j) : m.Idle lane := by
  unfold JobQueue.next? at h
  split at h
  · cases h
  · rename_i hn
    exact Option.not_isSome_iff_eq_none.mp fun hr => hn (.inr hr)

theorem Works.reaches (h : Works lane P b l m) : Reaches P b m := by
  induction h with
  | start hp h => exact .step (.refl b) hp h
  | own _ hp h ih => exact ih.step hp h
  | beside _ hp _ _ h ih => exact ih.step hp h

theorem Works.mono {Q : Action → Prop} (h : Works lane P b l m)
    (hPQ : ∀ a, P a → a ≠ .restart → Q a) : Works lane Q b l m := by
  induction h with
  | start hp h => exact .start (hPQ _ hp (by simp)) h
  | own _ hp h ih => exact .own ih (hPQ _ hp (by simp)) h
  | beside _ hp ha hr h ih => exact .beside ih (hPQ _ hp hr) ha hr h

theorem Works.goes {Q : Action → Prop} {k : List Deed} (h : Works lane P b l m₁)
    (hg : Goes lane Q m₁ k m) (hQP : ∀ a, Q a → P a) : Works lane P b (l ++ k) m := by
  induction hg with
  | refl => rwa [List.append_nil]
  | own _ hp hs ih =>
    rw [← List.append_assoc]
    exact .own ih (hQP _ hp) hs
  | beside _ hp ha hr hs ih => exact .beside ih (hQP _ hp) ha hr hs

theorem Works.usual (h : Works lane P b l m) (hb : b.Follows .usual) : m.Follows .usual :=
  h.reaches.usual hb

theorem Works.run {as : List Action} (h : Works lane P b l m)
    (has : ∀ a ∈ as, P a ∧ ∃ c, a = .resume (.job lane) c) (hr : m.run? now as = some m') :
    ∃ l', Works lane P b l' m' := by
  induction as generalizing l m with
  | nil =>
    obtain rfl := Option.some.inj hr
    exact ⟨l, h⟩
  | cons a as ih =>
    obtain ⟨m₁, hs, hrest⟩ := Option.bind_eq_some_iff.mp hr
    obtain ⟨⟨hp, c, rfl⟩, has'⟩ := List.forall_mem_cons.mp has
    exact ih (.own h hp hs) has' hrest

theorem Span.start {j : lane.Work} (hj : (b.engine.queue lane).next? = some j)
    (h : b.step? now (.start lane) = some m) :
    Span lane P b j (b.log now (.start lane)) m := by
  have hframe := step_frame h (by simp)
  obtain ⟨i, progress, hi, hafter, hq⟩ := start_queue h
  obtain rfl := Option.some.inj (hj.symm.trans hi)
  exact {
    story := Lane.story_of_tells hframe.core
    config := hframe.config
    submitted := ⟨_, by rw [hq, JobQueue.settle_submitted]; rfl⟩
    issued := hframe.issued
    keeps := hframe.keeps
    stage := by simpa using Stage.settle (l := []) hq (.stay _) (.inl hafter) rfl rfl }

theorem Span.own {j : lane.Work} (hs : Span lane P b j l m) (hc : P (.resume (.job lane) c))
    (h : m.step? now (.resume (.job lane) c) = some m') :
    Span lane P b j (l ++ m.log now (.resume (.job lane) c)) m' := by
  have hframe := step_frame h (by simp)
  obtain ⟨p, progress, hp, hafter, hq⟩ := resume_queue h
  obtain ⟨jobs, hjobs⟩ := hs.submitted
  exact {
    story := hs.story.append (Lane.story_of_tells hframe.core)
    config := hframe.config.trans hs.config
    submitted := ⟨jobs ++ _, by
      rw [hq, JobQueue.settle_submitted, JobQueue.add, hjobs, List.append_assoc]⟩
    issued := fun d hd n hn => by
      rcases List.mem_append.mp hd with hd | hd
      · exact Nat.lt_of_lt_of_le (hs.issued d hd n hn) hframe.passes
      · exact hframe.issued d hd n hn
    keeps := fun i x hmem => by
      rcases List.mem_append.mp hmem with hmem | hmem
      · exact (hs.keeps i x hmem).grows fun other => (step_grows h (by simp) other).1
      · exact hframe.keeps i x hmem
    stage := by
      cases hs.stage with
      | ended hr => exact absurd hr (not_idle_of_running hp)
      | running hr hwalk he hv =>
        rw [hp] at hr
        obtain rfl := Option.some.inj hr
        apply Stage.settle hq hwalk ?_ he hv
        exact hafter.imp_right fun h => ⟨h.1, h.2.1, h.2.2.1, c, hc, h.2.2.2⟩ }

theorem Span.beside {j : lane.Work} (hs : Span lane P b j l m) (hm : m.Follows .usual)
    (ha : a.lane? ≠ some lane) (hr : a ≠ .restart) (h : m.step? now a = some m') :
    Span lane P b j l m' := by
  have hframe := step_frame h hr
  have hq := hframe.queue lane ha
  obtain ⟨jobs, hjobs⟩ := hs.submitted
  exact {
    story := hs.story.then_beside (beside_spares hm h ha hr)
    config := hframe.config.trans hs.config
    submitted := ⟨jobs ++ _, by rw [hq, JobQueue.add, hjobs, List.append_assoc]⟩
    issued := fun d hd n hn => Nat.lt_of_lt_of_le (hs.issued d hd n hn) hframe.passes
    keeps := fun i x hmem => (hs.keeps i x hmem).grows fun other => (step_grows h hr other).1
    stage := by
      cases hs.stage with
      | running hrun hwalk he hv =>
        exact .running (by rw [hq]; exact hrun) hwalk (by rw [hq]; exact he) (by rw [hq]; exact hv)
      | ended hidle hend he hv =>
        exact .ended (by rw [Idle, hq]; exact hidle) hend (by rw [hq]; exact he)
          (by rw [hq]; exact hv) }

theorem Works.span (h : Works lane P b l m) (hb : b.Follows .usual) :
    ∃ j, (b.engine.queue lane).next? = some j ∧ Span lane P b j l m := by
  induction h with
  | start _ h =>
    obtain ⟨j, -, hj, -⟩ := start_queue h
    exact ⟨j, hj, .start hj h⟩
  | own _ hc h ih =>
    obtain ⟨j, hj, hs⟩ := ih
    exact ⟨j, hj, hs.own hc h⟩
  | beside hw _ ha hr h ih =>
    obtain ⟨j, hj, hs⟩ := ih
    exact ⟨j, hj, hs.beside (hw.usual hb) ha hr h⟩

theorem Works.span_of_next {j : lane.Work} (h : Works lane P b l m) (hb : b.Follows .usual)
    (hj : (b.engine.queue lane).next? = some j) : Span lane P b j l m := by
  obtain ⟨i, hi, hspan⟩ := h.span hb
  obtain rfl := Option.some.inj (hj.symm.trans hi)
  exact hspan

theorem Works.ended (h : Works lane P b l m)
    (hb : b.Follows .usual) (hm : ¬ m.Idle lane) :
    (m.engine.queue lane).ended = (b.engine.queue lane).ended := by
  obtain ⟨j, hj, hspan⟩ := h.span hb
  exact (hspan.next hm hj).1

theorem Works.asked {r : Request} {x : r.Answer} (h : Works lane P b l m)
    (hx : .request r x ∈ l) :
    ∃ (k : List Deed) (m₁ m₂ : Machine) (now : Timestamp) (c : Conduct)
      (next : r.Answer → Program (lane.Value × Except Fault Reply)),
      Works lane P b k m₁ ∧ (m₁.engine.queue lane).running = some (.wait r next) ∧
        (∃ m', m₁.respond c r = (m', .answer x)) ∧
          m₁.step? now (.resume (.job lane) c) = some m₂ ∧ Reaches P m₂ m := by
  induction h with
  | start hp h =>
    obtain ⟨j, hj, -⟩ := start_cases h
    simp only [log, hj] at hx
    cases deeds_acts _ _ _ _ hx
  | own hw hp h ih =>
    rename_i now l m m' c
    rcases List.mem_append.mp hx with hx | hx
    · obtain ⟨k, m₁, m₂, now₁, c₁, next, hk, hrun, hx, hs, hm⟩ := ih hx
      exact ⟨k, m₁, m₂, now₁, c₁, next, hk, hrun, hx, hs, hm.step hp h⟩
    · obtain ⟨p, m₁, progress, hrun, hr, -⟩ := resume_cases h
      simp only [log, hrun] at hx
      obtain ⟨q, next, rfl, ⟨-, hl, -⟩ | ⟨y, m₂, hq, -, hl⟩⟩ := resume_after hr
      · simp [hl] at hx
      · rw [hl] at hx
        rcases List.mem_cons.mp hx with hx | hx
        · cases hx
          exact ⟨l, m, m', now, c, next, hw, hrun, ⟨m₂, hq⟩, h, .refl _⟩
        · cases deeds_acts _ _ _ _ hx
  | beside hw hp ha hr h ih =>
    obtain ⟨k, m₁, m₂, now₁, c₁, next, hk, hrun, hx, hs, hm⟩ := ih hx
    exact ⟨k, m₁, m₂, now₁, c₁, next, hk, hrun, hx, hs, hm.step hp h⟩

theorem Works.granted (h : Works lane P b l m)
    (hP : ∀ c, P (.resume (.job lane) c) → c.Willing) : ∀ d ∈ l, d.Granted := by
  induction h with
  | start _ h =>
    obtain ⟨j, hj, -⟩ := start_cases h
    simp only [log, hj]
    exact deeds_granted _ _ _
  | own _ hc h ih =>
    obtain ⟨p, m₁, progress, hp, hr, -⟩ := resume_cases h
    intro d hd
    simp only [log, hp] at hd
    exact (List.mem_append.mp hd).elim (ih d) (answered_granted (hP _ hc) hr d)
  | beside _ _ _ _ _ ih => exact ih

section Companion

variable {X : Type} {C : Companion X} {x₀ x x' y : X}

theorem ReachesWith.reaches (h : ReachesWith C m₀ x₀ m x)
    (hC : ∀ x m now a m' x', C x m now a m' x' → P a) : Reaches P m₀ m := by
  induction h with
  | refl => exact .refl _
  | step _ hs hx ih => exact ih.step (hC _ _ _ _ _ _ hx) hs

theorem WorksWith.works (h : WorksWith lane C b y l m x)
    (hC : ∀ x m now a m' x', C x m now a m' x' → P a) : Works lane P b l m := by
  induction h with
  | start hs hx => exact .start (hC _ _ _ _ _ _ hx) hs
  | own _ hs hx ih => exact .own ih (hC _ _ _ _ _ _ hx) hs
  | beside _ ha hr hs hx ih => exact .beside ih (hC _ _ _ _ _ _ hx) ha hr hs

theorem ReachesWith.any (h : ReachesWith C m₀ x₀ m x) : Reaches (fun _ => True) m₀ m :=
  h.reaches fun _ _ _ _ _ _ _ => trivial

theorem WorksWith.any (h : WorksWith lane C b y l m x) : Works lane (fun _ => True) b l m :=
  h.works fun _ _ _ _ _ _ _ => trivial

def Between (lane : Lane) (C : Companion X) (m₀ : Machine) (x₀ : X) (I : Machine → X → Prop)
    (m : Machine) (x : X) : Prop :=
  (m.Idle lane ∧ I m x) ∨
    ¬ m.Idle lane ∧ ∃ b y l, ReachesWith C m₀ x₀ b y ∧ b.Idle lane ∧ I b y ∧
      WorksWith lane C b y l m x

theorem idle_iff_of_beside (hs : m.step? now a = some m') (ha : a.lane? ≠ some lane)
    (hr : a ≠ .restart) : m'.Idle lane ↔ m.Idle lane := by
  rw [Idle, (step_frame hs hr).running ha]
  rfl

theorem ReachesWith.between {I : Machine → X → Prop} (h : ReachesWith C m₀ x₀ m x)
    (h₀ : m₀.Idle lane ∧ I m₀ x₀)
    (hrestart : ∀ m x now m' x', ReachesWith C m₀ x₀ m x → Between lane C m₀ x₀ I m x →
      m.step? now .restart = some m' → C x m now .restart m' x' → I m' x')
    (hbeside : ∀ m x now a m' x', ReachesWith C m₀ x₀ m x → m.Idle lane → I m x →
      a.lane? ≠ some lane → a ≠ .restart → m.step? now a = some m' → C x m now a m' x' → I m' x')
    (hworks : ∀ b y l m x, ReachesWith C m₀ x₀ b y → b.Idle lane → I b y →
      WorksWith lane C b y l m x → m.Idle lane → I m x) :
    Between lane C m₀ x₀ I m x := by
  induction h with
  | refl => exact .inl h₀
  | step h hs hx ih =>
    rename_i m m' x x' now a
    have hwork (b y l) (hb : ReachesWith C m₀ x₀ b y) (hidle : b.Idle lane) (hI : I b y)
        (hw : WorksWith lane C b y l m' x') : Between lane C m₀ x₀ I m' x' :=
      (Classical.em (m'.Idle lane)).imp (fun h' => ⟨h', hworks b y l m' x' hb hidle hI hw h'⟩)
        fun h' => ⟨h', b, y, l, hb, hidle, hI, hw⟩
    by_cases hr : a = .restart
    · subst hr
      have hidle : m'.Idle lane := by
        obtain rfl := restart_cases hs
        cases lane <;> rfl
      exact .inl ⟨hidle, hrestart m x now m' x' h ih hs hx⟩
    -- A step of the worker starts a job or goes on with it. Any other leaves the queue as it is.
    by_cases hl : a.lane? = some lane
    · rcases ih with ⟨hidle, hI⟩ | ⟨hidle, b, y, l, hb, hbidle, hI, hw⟩
      · rcases Action.eq_of_lane? hl with rfl | ⟨c, rfl⟩
        · exact hwork m x _ h hidle hI (.start hs hx)
        · obtain ⟨p, -, hp, -⟩ := resume_queue hs
          exact absurd hidle (not_idle_of_running hp)
      · rcases Action.eq_of_lane? hl with rfl | ⟨c, rfl⟩
        · obtain ⟨j, -, hj, -⟩ := start_queue hs
          exact absurd (idle_of_next hj) hidle
        · exact hwork b y _ hb hbidle hI (.own hw hs hx)
    · have hiff := idle_iff_of_beside hs hl hr
      rcases ih with ⟨hidle, hI⟩ | ⟨hidle, b, y, l, hb, hbidle, hI, hw⟩
      · exact .inl ⟨hiff.mpr hidle, hbeside m x now a m' x' h hidle hI hl hr hs hx⟩
      · exact .inr ⟨fun h' => hidle (hiff.mp h'), b, y, l, hb, hbidle, hI,
          .beside hw hl hr hs hx⟩

end Companion

theorem Reaches.unaccompanied (h : Reaches P m₀ m) :
    ReachesWith (fun _ _ _ a _ _ => P a) m₀ () m () := by
  induction h with
  | refl => exact .refl
  | step _ ha hs ih => exact ih.step hs ha

theorem Reaches.boundary_or_works {I : Machine → Prop} (h : Reaches P m₀ m)
    (h₀ : m₀.Idle lane ∧ I m₀)
    (hrestart : ∀ m, Reaches P m₀ m → P .restart → I { m with engine := m.engine.renewed })
    (hbeside : ∀ m now a m', Reaches P m₀ m → m.Idle lane → I m → P a → a.lane? ≠ some lane →
      a ≠ .restart → m.step? now a = some m' → I m')
    (hworks : ∀ b l m, Reaches P m₀ b → b.Idle lane → I b → Works lane P b l m → m.Idle lane →
      I m) :
    (m.Idle lane ∧ I m) ∨
      ¬ m.Idle lane ∧ ∃ b l, Reaches P m₀ b ∧ b.Idle lane ∧ I b ∧ Works lane P b l m := by
  let C : Companion Unit := fun _ _ _ a _ _ => P a
  have hP : ∀ x m now a m' x', C x m now a m' x' → P a := fun _ _ _ _ _ _ h => h
  suffices hcases : Between lane C m₀ () (fun m _ => I m) m () by
    exact hcases.imp_right fun ⟨hidle, b, _, l, hb, hbidle, hI, hw⟩ =>
      ⟨hidle, b, l, hb.reaches hP, hbidle, hI, hw.works hP⟩
  apply h.unaccompanied.between h₀
  · intro m _ now m' _ hm _ hs ha
    obtain rfl := restart_cases hs
    exact hrestart m (hm.reaches hP) ha
  · exact fun m _ now a m' _ hm hidle hI hl hr hs ha =>
      hbeside m now a m' (hm.reaches hP) hidle hI ha hl hr hs
  · exact fun b _ l m _ hb hidle hI hw => hworks b l m (hb.reaches hP) hidle hI (hw.works hP)

theorem Reaches.of_works {I : Machine → Prop} (h : Reaches P m₀ m) (h₀ : m₀.Idle lane ∧ I m₀)
    (hrestart : ∀ m, Reaches P m₀ m → I m → P .restart → I { m with engine := m.engine.renewed })
    (hbeside : ∀ m now a m', Reaches P m₀ m → I m → P a → a.lane? ≠ some lane →
      a ≠ .restart → m.step? now a = some m' → I m')
    (hworks : ∀ b l m, Reaches P m₀ b → I b → Works lane P b l m → I m) : I m := by
  let C : Companion Unit := fun _ _ _ a _ _ => P a
  have hP : ∀ x m now a m' x', C x m now a m' x' → P a := fun _ _ _ _ _ _ h => h
  have hholds {m : Machine} (h : Between lane C m₀ () (fun m _ => I m) m ()) : I m := by
    rcases h with ⟨-, hI⟩ | ⟨-, b, _, l, hb, -, hI, hw⟩
    · exact hI
    · exact hworks b l m (hb.reaches hP) hI (hw.works hP)
  apply hholds
  apply h.unaccompanied.between h₀
  · intro m _ now m' _ hm hcases hs ha
    obtain rfl := restart_cases hs
    exact hrestart m (hm.reaches hP) (hholds hcases) ha
  · exact fun m _ now a m' _ hm _ hI hl hr hs ha =>
      hbeside m now a m' (hm.reaches hP) hI ha hl hr hs
  · exact fun b _ l m _ hb _ hI hw _ => hworks b l m (hb.reaches hP) hI (hw.works hP)

theorem Reaches.works (h : Reaches P m₀ m) (h₀ : m₀.Idle lane) (hm : ¬ m.Idle lane) :
    ∃ b l, Reaches P m₀ b ∧ Works lane P b l m := by
  have hcases := h.boundary_or_works (I := fun _ => True) ⟨h₀, trivial⟩ (fun _ _ _ => trivial)
    (fun _ _ _ _ _ _ _ _ _ _ _ => trivial) fun _ _ _ _ _ _ _ _ => trivial
  rcases hcases with ⟨hidle, -⟩ | ⟨-, b, l, hb, -, -, hw⟩
  · exact absurd hidle hm
  · exact ⟨b, l, hb, hw⟩

theorem Reaches.works_step (h : Reaches P m₀ m) (h₀ : m₀.Idle lane) (hm₀ : m₀.Follows .usual)
    (ha : P a) (hl : a.lane? = some lane) (hs : m.step? now a = some m') :
    ∃ b k, Reaches P m₀ b ∧ Works lane P b (k ++ m.log now a) m' ∧
      (b.engine.queue lane).ended = (m.engine.queue lane).ended := by
  rcases Action.eq_of_lane? hl with rfl | ⟨c, rfl⟩
  · exact ⟨m, [], h, .start ha hs, rfl⟩
  · obtain ⟨p, -, hp, -⟩ := resume_queue hs
    have hbusy : ¬ m.Idle lane := not_idle_of_running hp
    obtain ⟨b, l, hb, hw⟩ := h.works h₀ hbusy
    exact ⟨b, l, hb, .own hw ha hs, (hw.ended (hb.usual hm₀) hbusy).symm⟩

end Machine

end DeviceLock
