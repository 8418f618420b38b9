import DeviceLock.Proofs.Engine.ProvisionTrail
import DeviceLock.Proofs.Engine.TransitionProtocol
import DeviceLock.Proofs.Program.Joining

namespace DeviceLock

open Program Lane

def Pass.Open (p : Pass) : Prop := none ∈ p.ends

namespace ProvisionState

def settle (s : ProvisionState) :
    PolicyJob × Ending (Option LockMode) (Except Fault Reply) Fault → ProvisionState
  | (.transition _, .done _ (.ok (.provision n))) => n
  | _ => s

theorem settle_of_ne {j : PolicyJob} {e : Ending (Option LockMode) (Except Fault Reply) Fault}
    {s : ProvisionState} (hj : ∀ event, j ≠ .transition event) : s.settle (j, e) = s := by
  cases j with
  | transition event => exact absurd rfl (hj event)
  | _ => rfl

end ProvisionState

/-- What a pass of the job may act on: the state that the transition leads to, the state that it has
moved the cursor back to, or, for any other job, the state that the job starts at. The cursor has
been moved along the list so far. -/
inductive ActsOn (start : ProvisionState) :
    PolicyJob → List ProvisionState → ProvisionState → Prop
  | entered {event : ProvisionEvent} {next : ProvisionState} (h : start.next event = some next) :
      ActsOn start (.transition event) [next] next
  | restored {event : ProvisionEvent} {next : ProvisionState} (h : start.next event = some next) :
      ActsOn start (.transition event) [next, start] start
  | standing {job : PolicyJob} (h : ∀ event, job ≠ .transition event) : ActsOn start job [] start

namespace Lane

variable {c c' : Core} {d : Deed} {p s : ProvisionState} {dev : DeviceState} {step : PolicyStep}
  {n : Nat} {j k l r : List Deed}

theorem moved_of_unowned (h : ∀ d ∈ l, ¬ policy.Owns d) : l.filterMap Deed.moved? = [] := by
  apply List.filterMap_eq_nil_iff.mpr
  intro d hd
  cases d with
  | act a x =>
    cases a with
    | moveCursor s => exact absurd trivial (h _ hd)
    | _ => rfl
  | request r x => rfl

theorem Story.reads {x : Except StorageFault ProvisionState}
    (h : policy.Story c (k ++ .request .cursor x :: l) c')
    (ho : ∀ d ∈ k ++ .request .cursor x :: l, ¬ policy.Owns d) (hx : x = .ok p) :
    p = c.position ∧ k.filterMap Deed.moved? = [] := by
  subst hx
  have hk : ∀ d ∈ k, ¬ policy.Owns d := fun d hd => ho d (List.mem_append_left _ hd)
  obtain ⟨c₁, hkept, hl⟩ := h.split
  obtain ⟨c₂, hs, hfits, -⟩ := Story.head hl
  have hp : p = c₂.position := hfits
  exact ⟨by rw [hp, hs.1, (Story.spares hkept hk).1], moved_of_unowned hk⟩

theorem moved_of_advance {event : ProvisionEvent} {p n : ProvisionState}
    (h : Ends (advance event) l (.ok (p, n))) : l.filterMap Deed.moved? = [n] := by
  obtain ⟨-, u, k, hk, rfl⟩ := ends_advance_ok h
  have hentry := moved_of_unowned fun d hd => not_owns_of_entering (onEntry_deeds hk d hd)
  simp [List.filterMap_cons, hentry, Deed.moved?]

theorem not_load_of_advance {event : ProvisionEvent} {x : Request.load.Answer}
    {q : Program (ProvisionState × ProvisionState)} (h : Walk (advance event) l q) :
    .request .load x ∉ l :=
  fun hmem => ((advance_advancing event).walk (fun _ _ => trivial) h _ hmem).elim

theorem split_of_advance {event : ProvisionEvent} {s n : ProvisionState} {x : Request.cursor.Answer}
    {y : Request.load.Answer} (h : Ends (advance event) j (.ok (s, n)))
    (hl : j ++ l = k ++ .request .cursor x :: .request .load y :: r) :
    ∃ t, k = j ++ t ∧ l = t ++ .request .cursor x :: .request .load y :: r := by
  refine (Deed.split_at hl).resolve_left ?_
  rintro ⟨t, rfl⟩
  have htail : t ++ l = .request .load y :: r := by simpa using hl
  cases t with
  | nil =>
    obtain ⟨-, u, k', -, hj⟩ := ends_advance_ok h
    have := congrArg List.reverse hj
    simp at this
  | cons d t =>
    obtain ⟨rfl, -⟩ := List.cons.inj htail
    exact not_load_of_advance (x := y) h (by simp)

end Lane

namespace Progress

variable {α : Type} {progress : Progress α} {p : Program α} {l : List Deed}

def Joining (owed : Option Nat) : Progress α → Prop
  | running rest => rest.Joining owed
  | ended _ | panicked => owed = none

theorem After.joining (h : progress.After p l) (hp : p.Joining none)
    (hl : ∀ d ∈ l, d.isRequest = false) :
    ∃ owed, progress.Joining owed ∧ ∀ d ∈ l, ∀ n, d.issued? = some n → owed = some n := by
  cases h with
  | running hw =>
    obtain ⟨owed, hrest, hissued⟩ := hp.walk hw hl
    exact ⟨owed, hrest, fun d hd n hn => hissued n (.inr ⟨d, hd, hn⟩)⟩
  | ended hw =>
    obtain ⟨owed, hrest, hissued⟩ := hp.walk hw hl
    exact ⟨owed, hrest, fun d hd n hn => hissued n (.inr ⟨d, hd, hn⟩)⟩

end Progress

namespace Machine

variable {P : Action → Prop} {d : Document} {m₀ b m m₁ m' : Machine} {now : Timestamp}
  {a : Action} {k l : List Deed}

structure Issues (m : Machine) (l : List Deed) (m' : Machine) : Prop where
  old : ∀ (n : Nat) (p : Pass), m.engine.passes[n]? = some p →
    ∃ ends, m'.engine.passes[n]? = some { p with ends } ∧ (none ∈ ends → p.Open)
  new : ∀ (n : Nat) (p : Pass), m'.engine.passes[n]? = some p → m.engine.passes[n]? = none →
    .act (.issue p.provision p.device p.step) n ∈ l

theorem Issues.of_same (h : m'.engine.passes = m.engine.passes) : m.Issues l m' where
  old := fun _ p hp => ⟨p.ends, h ▸ hp, id⟩
  new := fun _ _ hp hn => by
    rw [h, hn] at hp
    cases hp

theorem Issues.trans (h : m.Issues k m₁) (h' : m₁.Issues l m') : m.Issues (k ++ l) m' where
  old := fun n p hp => by
    obtain ⟨ends₁, hp₁, ho₁⟩ := h.old n p hp
    obtain ⟨ends, hp', ho⟩ := h'.old n _ hp₁
    exact ⟨ends, hp', ho₁ ∘ ho⟩
  new := fun n p hp hn => by
    cases hp₁ : m₁.engine.passes[n]? with
    | none => exact List.mem_append_right k (h'.new n p hp hp₁)
    | some p₁ =>
      obtain ⟨ends, hp', -⟩ := h'.old n p₁ hp₁
      obtain rfl := Option.some.inj (hp.symm.trans hp')
      exact List.mem_append_left l (h.new n p₁ hp₁ hn)

theorem Does.issues {d : Deed} (h : Does m d m') : m.Issues [d] m' := by
  cases h with
  | act now a =>
    cases a with
    | issue p dev step =>
      refine ⟨fun n q hq => ⟨q.ends, ?_, id⟩, fun n q hq hn => ?_⟩
      · obtain ⟨hlt, -⟩ := List.getElem?_eq_some_iff.mp hq
        exact (List.getElem?_append_left hlt).trans hq
      · have hq : (m.engine.passes ++ [⟨p, dev, step, m.engine.capabilities.map fun _ => none⟩])[n]?
            = some q := hq
        have hle := List.getElem?_eq_none_iff.mp hn
        rw [List.getElem?_append_right hle, List.getElem?_singleton] at hq
        split at hq
        · obtain rfl := Option.some.inj hq
          obtain rfl : n = m.engine.passes.length := by omega
          exact List.mem_singleton.mpr rfl
        · cases hq
    | submit j => cases j <;> exact .of_same rfl
    | _ => exact .of_same rfl
  | request h =>
    obtain ⟨k, hk⟩ := respond_engine h
    exact .of_same (by rw [hk])

theorem Plays.issues (h : Plays m l m') : m.Issues l m' := by
  induction h with
  | nil m => exact .of_same rfl
  | cons hd _ ih => exact hd.issues.trans ih

theorem step_issues (h : m.step? now a = some m') (hr : a ≠ .restart) :
    m.Issues (m.log now a) m' := by
  cases step_cases h hr with
  | plays hplays hn =>
    have hnote : Issues _ [] m' := .of_same hn.passes
    simpa using hplays.issues.trans hnote
  | panics _ _ _ _ he hn => exact .of_same (by rw [hn.passes, he])
  | callbackEnds ha hp he =>
    rename_i n k result p
    subst he
    refine ⟨fun i q hq => ?_, fun i q hq hn => ?_⟩
    · by_cases hi : n = i
      · subst hi
        obtain rfl := Option.some.inj (hp.symm.trans hq)
        obtain ⟨hlt, -⟩ := List.getElem?_eq_some_iff.mp hq
        refine ⟨p.ends.set k (some result), List.getElem?_set_self hlt, fun ho => ?_⟩
        exact (List.mem_or_eq_of_mem_set ho).resolve_right (by simp)
      · exact ⟨q.ends, (List.getElem?_set_ne hi).trans hq, id⟩
    · have hlt := (List.getElem?_eq_some_iff.mp hq).1
      have hle := List.getElem?_eq_none_iff.mp hn
      simp only [List.length_set] at hlt
      omega
  | activation _ _ he => exact .of_same (by rw [he])

def Joined (m : Machine) : Prop :=
  ∃ owed : Option Nat,
    (∀ n p, m.engine.passes[n]? = some p → p.Open → owed = some n) ∧
      (m.Idle .policy → owed = none) ∧
        ∀ p, (m.engine.queue .policy).running = some p → p.Joining owed

theorem Fresh.joined (h : Fresh d m) : m.Joined := by
  refine ⟨none, fun n p hp => ?_, fun _ => rfl, fun p hp => ?_⟩
  · rw [h.engine.1] at hp
    cases hp
  · rw [h.engine.1] at hp
    cases hp

theorem not_open_of_ends {n : Nat} {x : List (String × CallbackEnd)} {p : Pass}
    (h : m.engine.ends? n = some x) (hp : m.engine.passes[n]? = some p) : ¬ p.Open := by
  obtain ⟨q, hq, h⟩ := Option.bind_eq_some_iff.mp h
  obtain ⟨ends, hends, -⟩ := Option.bind_eq_some_iff.mp h
  obtain rfl := Option.some.inj (hp.symm.trans hq)
  rw [Pass.Open, eq_map_of_mapM hends]
  simp

theorem Joined.settle {progress : Progress (Option LockMode × Except Fault Reply)}
    {q : Queue (Option LockMode) PolicyJob} {owed : Option Nat}
    (hclosed : ∀ (n : Nat) (p : Pass), m.engine.passes[n]? = some p → ¬ p.Open)
    (hi : m.Issues l m') (hp : progress.Joining owed)
    (hl : ∀ d ∈ l, ∀ n, d.issued? = some n → owed = some n)
    (hq : m'.engine.queue .policy = q.settle progress) : m'.Joined := by
  refine ⟨owed, fun n p hpass ho => ?_, fun hidle => ?_, fun p hrun => ?_⟩
  · cases hold : m.engine.passes[n]? with
    | none => exact hl _ (hi.new n p hpass hold) n rfl
    | some p₀ =>
      obtain ⟨ends, hp', hends⟩ := hi.old n p₀ hold
      obtain rfl := Option.some.inj (hpass.symm.trans hp')
      exact absurd (hends ho) (hclosed n p₀ hold)
  · rw [Idle, hq] at hidle
    cases progress with
    | running rest => cases hidle
    | ended r => exact hp
    | panicked => exact hp
  · rw [hq] at hrun
    obtain rfl := JobQueue.settle_running hrun
    exact hp

theorem Joined.closed (h : m.Joined) (hidle : m.Idle .policy) :
    ∀ (n : Nat) (p : Pass), m.engine.passes[n]? = some p → ¬ p.Open := by
  obtain ⟨owed, hopen, hnone, -⟩ := h
  intro n p hp ho
  cases (hnone hidle).symm.trans (hopen n p hp ho)

theorem Joined.waits {n : Nat} {p : Pass} (h : m.Joined) (hp : m.engine.passes[n]? = some p)
    (ho : p.Open) : ∃ next, m.engine.policy.running = some (.wait (.join n) next) := by
  obtain ⟨owed, hopen, hnone, hjoining⟩ := h
  have howed := hopen n p hp ho
  cases hrun : (m.engine.queue .policy).running with
  | none => cases (hnone hrun).symm.trans howed
  | some q =>
    have hq := hjoining q hrun
    rw [howed] at hq
    cases q with
    | done r => cases hq
    | act a next => cases hq.1
    | wait r next =>
      obtain rfl := hq.1 n rfl
      exact ⟨next, hrun⟩

theorem Joined.answered {r : Request} {c : Conduct} (h : m.Joined)
    {next : r.Answer → Program (Option LockMode × Except Fault Reply)}
    (hrun : (m.engine.queue .policy).running = some (.wait r next))
    (hr : (∃ m₁, m.respond c r = (m₁, .panicked)) ∨ ∃ m₁ x, m.respond c r = (m₁, .answer x)) :
    ∀ (n : Nat) (p : Pass), m.engine.passes[n]? = some p → ¬ p.Open := by
  obtain ⟨owed, hopen, -, hjoining⟩ := h
  intro n p hp ho
  obtain rfl := (hjoining _ hrun).1 n (hopen n p hp ho)
  rcases hr with ⟨m₁, hr⟩ | ⟨m₁, x, hr⟩
  · cases responds hr
  · cases responds hr with
    | joined hends => exact not_open_of_ends hends hp ho

theorem Joined.beside (h : m.Joined) (hm : m.Follows .usual) (hs : m.step? now a = some m')
    (ha : a.lane? ≠ some .policy) (hr : a ≠ .restart) : m'.Joined := by
  obtain ⟨owed, hopen, hnone, hjoining⟩ := h
  have hrun := (step_frame hs hr).running ha
  have hissues := step_issues hs hr
  refine ⟨owed, fun n p hp ho => ?_, fun hidle => ?_, fun p hp => hjoining p (hrun ▸ hp)⟩
  · cases hold : m.engine.passes[n]? with
    | none =>
      have hw := (hm.step hs (admits_usual m now a)).1 _ (hissues.new n p hp hold)
      unfold Regime.of at hw
      split at hw
      · rename_i other ho'
        cases other with
        | policy => exact absurd ho' ha
        | _ => exact hw.elim
      · exact hw.elim
    | some q =>
      obtain ⟨ends, hp', hends⟩ := hissues.old n q hold
      obtain rfl := Option.some.inj (hp.symm.trans hp')
      exact hopen n q hold (hends ho)
  · rw [Idle, hrun] at hidle
    exact hnone hidle

theorem Joined.step (h : m.Joined) (hm : m.Follows .usual) (hs : m.step? now a = some m') :
    m'.Joined := by
  by_cases hr : a = .restart
  · subst hr
    obtain rfl := restart_cases hs
    exact ⟨none, by simp [Engine.renewed], fun _ => rfl, fun p hp => by cases hp⟩
  by_cases ha : a.lane? = some .policy
  · rcases Action.eq_of_lane? ha with rfl | ⟨c, rfl⟩
    · obtain ⟨j, progress, hj, hafter, hq⟩ := start_queue hs
      have hacts : ∀ d ∈ m.log now (.start .policy), d.isRequest = false := by
        simp only [log, hj]
        exact deeds_acts _ _ _
      obtain ⟨owed, hp, hissued⟩ := hafter.joining (PolicyJob.program_joining _ _ j) hacts
      exact .settle (h.closed (idle_of_next hj)) (step_issues hs hr) hp hissued hq
    · have hissues := step_issues hs hr
      obtain ⟨p, m₁, progress, hp, hres, rfl⟩ := resume_cases hs
      have hlog : m.log now (.resume (.job .policy) c) = m.answered now c p := by
        simp only [log, hp]
      have hq : (m₁.settle .policy progress).engine.queue .policy =
          (m₁.engine.queue .policy).settle progress := rfl
      rw [hlog] at hissues
      obtain ⟨r, next, rfl, ⟨rfl, hl, hx⟩ | ⟨x, m₂, hx, hadv, hl⟩⟩ := resume_after hres
      · rw [hl] at hissues
        have hnone : (Progress.panicked : Progress (Option LockMode × Except Fault Reply)).Joining
            none := rfl
        exact .settle (h.answered hp (.inl ⟨_, hx⟩)) hissues hnone (by simp) hq
      · obtain ⟨owed, -, -, hjoining⟩ := id h
        have hafter := (advance_after m₂ now (next x)).2
        rw [hadv] at hafter
        obtain ⟨owed', hp', hissued⟩ :=
          hafter.joining ((hjoining _ hp).2 x) (deeds_acts m₂ now _)
        refine .settle (h.answered hp (.inr ⟨_, _, hx⟩)) hissues hp' ?_ hq
        rw [hl]
        exact List.forall_mem_cons.mpr ⟨by simp [Deed.issued?], hissued⟩
  · exact h.beside hm hs ha hr

theorem Span.actsOn {j : PolicyJob} {s : ProvisionState} {x : Request.load.Answer}
    {r : List Deed} (h : Span .policy P b j l m)
    (hl : l = k ++ .request .cursor (.ok s) :: .request .load x :: r) :
    ActsOn b.core.position j (k.filterMap Deed.moved?) s := by
  by_cases hj : ∃ event, j = .transition event
  · obtain ⟨event, rfl⟩ := hj
    obtain ⟨q, hw⟩ := h.walk_transition
    rcases walk_transition_stage hw with ⟨q, hw⟩ | ⟨p, next, a, t, rfl, ha, ht⟩
    · exact absurd (by simp [hl]) (not_load_of_advance (x := x) hw)
    obtain ⟨rfl, c, hc, hs⟩ := TransitionEnd.stands_of_advance_ok h.story ha
    have hnext := (ends_advance_ok ha).1
    obtain ⟨k, rfl, rfl⟩ := split_of_advance ha hl
    rw [List.filterMap_append, moved_of_advance ha]
    have henforce {t : List Deed} {q : Program LockMode} {c' : Core}
        (hs : policy.Story c (k ++ .request .cursor (.ok s) :: t) c')
        (hw : Walk (enforce false) (k ++ .request .cursor (.ok s) :: t) q) :
        ActsOn b.core.position (.transition event) ([next] ++ k.filterMap Deed.moved?) s := by
      obtain ⟨rfl, hk⟩ := hs.reads (fun d hd =>
        not_owns_of_enforcing ((enforce_within false).walk (fun _ _ => trivial) hw d hd)) rfl
      rw [hk, hc.position]
      exact .entered hnext
    rcases ht with ⟨q, hw⟩ | ⟨e, a, f, q, ha, ht, hw⟩
    · exact henforce hs hw
    rw [ht] at hs
    rcases Deed.split_at ht.symm with ⟨t, rfl⟩ | ⟨t, rfl, htail⟩
    · obtain ⟨c', hs', -⟩ := Course.split hs
      exact henforce hs' ha
    -- Past the first pass the cursor has been moved back.
    obtain ⟨-, c₁, h₁, hs⟩ := TransitionEnd.enforce_reads hc hs ha
    obtain ⟨c₂, h₂, hs⟩ := h₁.move hs
    have ha := moved_of_unowned fun d hd => not_owns_of_enforcing (enforce_deeds ha d hd)
    cases t with
    | nil => cases htail
    | cons d t =>
      obtain ⟨rfl, rfl⟩ := List.cons.inj htail
      obtain ⟨rfl, hk⟩ := hs.reads (fun d hd =>
        not_owns_of_escalating ((critical_within _ _).walk (fun _ _ => trivial) hw d hd)) rfl
      rw [List.filterMap_append, ha, List.filterMap_cons, hk, h₂.position]
      exact .restored hnext
  · have hj : ∀ event, j ≠ .transition event := fun event he => hj ⟨event, he⟩
    obtain ⟨q, hw⟩ := h.walk
    have hwithin : (b.opening .policy j).Within .escalating := PolicyJob.program_escalating _ _ hj
    subst hl
    obtain ⟨rfl, hk⟩ := h.story.reads (fun d hd =>
      not_owns_of_escalating (hwithin.walk (fun _ _ => trivial) hw d hd)) rfl
    rw [hk]
    exact .standing hj

theorem Reaches.joined (h : Reaches P m m') (hm : m.Follows .usual) (hj : m.Joined) :
    m'.Joined := by
  induction h with
  | refl => exact hj
  | step h _ hs ih => exact ih.step (h.usual hm) hs

def settled (d : Document) (m : Machine) : ProvisionState :=
  m.engine.policy.outcomes.foldl ProvisionState.settle d.provision

theorem position_of_outcome {C : Conduct → Prop} {j : PolicyJob}
    {e : Ending (Option LockMode) (Except Fault Reply) Fault} (hs : Span .policy P b j l m)
    (hend : Ending.Of C (b.opening .policy j) l e) (hC : ∀ c, C c → c.Calm)
    (he : m.engine.policy.ended = b.engine.policy.ended ++ [e])
    (hv : m.engine.policy.value = e.value b.engine.policy.value) :
    m.core.position = b.core.position.settle (j, e) := by
  by_cases hj : ∃ event, j = .transition event
  · obtain ⟨event, rfl⟩ := hj
    obtain ⟨v, r, rfl, hends⟩ := concludes_of_ending hend hC
    obtain ⟨x, hx⟩ := TransitionEnd.exists_of_ends hs.story hends ⟨he, hv⟩
    rcases hx.position ⟨he, hv⟩ with ⟨n, rfl, -, hp⟩ | ⟨f, rfl, hp⟩
    · exact hp
    · exact hp
  · have hj : ∀ event, j ≠ .transition event := fun event he => hj ⟨event, he⟩
    rw [ProvisionState.settle_of_ne hj]
    exact (hs.still hj).1

theorem position_settled (hf : Fresh d m₀) (h : Reaches P m₀ m) (hP : ∀ a, P a → a.Orderly)
    (hidle : m.Idle .policy) : m.core.position = m.settled d := by
  have h₀ : m₀.Idle .policy ∧ m₀.core.position = m₀.settled d := by
    obtain ⟨he, hd⟩ := hf.engine
    have hcursor : m₀.engine.cursor = none := by rw [he]
    have hout : m₀.engine.policy.outcomes = [] := by
      rw [he]
      rfl
    exact ⟨hf.idle _, by simp [settled, hout, Machine.core, Core.position, hcursor, hd]⟩
  have hsettled {m m' : Machine} (ho : m'.engine.policy.outcomes = m.engine.policy.outcomes) :
      m'.settled d = m.settled d := by rw [settled, ho, settled]
  have hcases := h.boundary_or_works (I := fun m => m.core.position = m.settled d) h₀
    (fun m _ hr => (hP _ hr).elim) ?_ ?_
  · exact (hcases.resolve_right fun hbusy => hbusy.1 hidle).2
  · intro m now a m' hm _ hp _ ha hr hs
    have hended := (step_frame hs hr).ended ha
    rw [(beside_spares (hm.usual (hf.follows _)) hs ha hr).1, hp]
    exact (hsettled (JobQueue.outcomes_same (hm.ordered hf.ordered .policy)
      (step_grows hs hr .policy).1 hended)).symm
  · intro b l m hb _ hp hw hidle
    obtain ⟨j, hj, hs⟩ := hw.span (hb.usual (hf.follows _))
    obtain ⟨e, hend, he, hv⟩ := hs.exists_ending hidle
    have hout : m.engine.policy.outcomes = b.engine.policy.outcomes ++ [(j, e)] :=
      hs.outcomes (hb.ordered hf.ordered) hj he
    rw [position_of_outcome hs hend (fun c hc => hP _ hc) he hv, hp, settled, settled, hout,
      List.foldl_append]
    rfl

theorem exists_issuing {n : Nat} {p : Pass} (hf : Fresh d m₀) (h : Reaches P m₀ m) (ha : P a)
    (hs : m.step? now a = some m') (hp : m'.engine.passes[n]? = some p)
    (hn : m.engine.passes[n]? = none) :
    ∃ b j l, Reaches P m₀ b ∧ b.engine.policy.next? = some j ∧ Works .policy P b l m' ∧
      .act (.issue p.provision p.device p.step) n ∈ l := by
  have husual := h.usual (hf.follows _)
  have hr : a ≠ .restart := by
    rintro rfl
    obtain rfl := restart_cases hs
    cases hp
  have hissue := (step_issues hs hr).new n p hp hn
  have hlane : a.lane? = some .policy := by
    have hw := (husual.step hs (admits_usual m now a)).1 _ hissue
    unfold Regime.of at hw
    split at hw
    · rename_i other ho
      cases other with
      | policy => exact ho
      | _ => exact hw.elim
    · exact hw.elim
  obtain ⟨b, k, hb, hw, -⟩ := h.works_step (hf.idle _) (hf.follows _) ha hlane hs
  obtain ⟨j, hj, -⟩ := hw.span (hb.usual (hf.follows _))
  exact ⟨b, j, _, hb, hj, hw, List.mem_append_right k hissue⟩

/-- The callbacks of two passes never overlap: the job that has issued a pass waits for them. A pass
acts on a pair that its job has just read, whose provision state is the one that its own transition
enters or restores, and otherwise the one that the job has started at. Only policy jobs move it, and
between them it is where the last successful transition has led. -/
theorem pass_exclusion (hf : Fresh d m₀) (h : Reaches P m₀ m) :
    (∀ (n k : Nat) (p q : Pass), m.engine.passes[n]? = some p → m.engine.passes[k]? = some q →
      p.Open → q.Open → n = k) ∧
    (∀ (n : Nat) (p : Pass), m.engine.passes[n]? = some p → p.Open →
      ¬ m.Idle .policy ∧ ∃ next, m.engine.policy.running = some (.wait (.join n) next)) ∧
    (∀ now a m', P a → m.step? now a = some m' → ∀ (n : Nat) (p : Pass),
      m'.engine.passes[n]? = some p → m.engine.passes[n]? = none →
        ∃ b k l doc, Reaches P m₀ b ∧ Works .policy P b (k ++ .request .cursor (.ok p.provision) ::
          .request .load (.ok doc) :: .act (.issue p.provision p.device p.step) n :: l) m' ∧
            p.device = doc.device ∧ p.step = .resolve p.provision p.device) ∧
    (∀ j, m.engine.policy.next? = some j → ∀ k s x l m',
      Works .policy P m (k ++ .request .cursor (.ok s) :: .request .load x :: l) m' →
        ActsOn m.core.position j (k.filterMap Deed.moved?) s ∧
          ((∀ a, P a → a.Orderly) → m.core.position = m.settled d)) ∧
    ∀ now a m', m.step? now a = some m' → a.lane? ≠ some .policy → a ≠ .restart →
      m'.core.position = m.core.position := by
  have husual := h.usual (hf.follows _)
  have hjoined := h.joined (hf.follows _) hf.joined
  refine ⟨fun n k p q hp hq hpo hqo => ?_, fun n p hp ho => ?_, fun now a m' ha hs n p hp hn => ?_,
    fun j hj k s x l m' hw => ?_, fun now a m' hs ha hr => (beside_spares husual hs ha hr).1⟩
  · obtain ⟨owed, hopen, -⟩ := hjoined
    exact Option.some.inj ((hopen n p hp hpo).symm.trans (hopen k q hq hqo))
  · exact ⟨fun hidle => hjoined.closed hidle n p hp ho, hjoined.waits hp ho⟩
  · obtain ⟨b, j, l, hb, hj, hw, hmem⟩ := exists_issuing hf h ha hs hp hn
    obtain ⟨k, r, rfl⟩ := List.append_of_mem hmem
    obtain ⟨i, hi, hspan⟩ := hw.span (hb.usual (hf.follows _))
    obtain ⟨q, hwalk⟩ := hspan.walk
    obtain ⟨k, doc, rfl, hd⟩ := PolicyJob.program_reading _ _ i _ _ hwalk _ _ _ _ _ _ rfl
    exact ⟨b, k, r, doc, hb, by simpa using hw, hd⟩
  · have hspan := hw.span_of_next husual hj
    exact ⟨hspan.actsOn rfl, fun hP => position_settled hf h hP (idle_of_next hj)⟩

def firstPass : List Action :=
  [Action.call (.event .ready), .start .policy] ++ Action.goesOn .policy 6

theorem pass_exclusion_firstPass :
    ∃ m p, Reaches Action.Orderly (plain ["restrictions"]) m ∧
      m.engine.passes[0]? = some p ∧ p.Open ∧ p.provision = .inProgress ∧
        ∃ next, m.engine.policy.running = some (.wait (.join 0) next) := by
  have hrun : ((plain ["restrictions"]).run? epoch firstPass).any (fun m =>
      m.engine.passes[0]?.any fun p => p.ends.any (·.isNone) &&
        decide (p.provision = .inProgress)) = true := rfl
  obtain ⟨m, hm, hp⟩ := (Option.any_eq_true _ _).mp hrun
  obtain ⟨p, hp, hopen⟩ := (Option.any_eq_true _ _).mp hp
  simp only [Bool.and_eq_true, decide_eq_true_eq, List.any_eq_true,
    Option.isNone_iff_eq_none] at hopen
  obtain ⟨⟨_, hend, rfl⟩, hs⟩ := hopen
  have hr : Reaches Action.Orderly (plain ["restrictions"]) m := (Reaches.refl _).run (by decide) hm
  exact ⟨m, p, hr, hp, hend, hs, ((pass_exclusion (plain_fresh _) hr).2.1 0 p hp hend).2⟩

end Machine

end DeviceLock
