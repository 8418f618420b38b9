import DeviceLock.Proofs.Engine.PassExclusion

namespace DeviceLock

open Program Lane

def Conduct.panicking : Conduct where
  store := .panicked
  call := .panicked
  answer := none

namespace Request

theorem exists_answer (r : Request) : Nonempty r.Answer := by
  cases r with
  | cursor => exact ⟨.error .io⟩
  | load => exact ⟨.error .io⟩
  | write c => exact ⟨.ok ()⟩
  | call c => exact ⟨.ok ()⟩
  | ask q => exact ⟨true⟩
  | join n => exact ⟨[]⟩
  | await t => exact ⟨.ok .unit⟩

/-- Where an enforcement turns to a collaborator that can panic. Capabilities are called back
elsewhere. -/
def Exposed : Request → Prop
  | load | ask .userUnlocked | call .exit => True
  | _ => False

end Request

def Footprint.immediate : Footprint where
  acts _ := True
  requests _ := False

def Footprint.exposed : Footprint where
  acts _ := True
  requests r := r = .cursor ∨ (∃ n, r = .join n) ∨ r.Exposed

namespace Program

variable {r : Request} {x : r.Answer} {l : List Deed}

theorem enforce_exposed (c : Bool) : (enforce c).Within .exposed := by
  rw [enforce_eq]
  refine within_bind (cursor_within (.inl rfl)) fun p =>
    within_bind (load_within (.inr (.inr trivial))) fun d => within_bind (within_attempt ?_)
      fun r => conclude_within _ r (fun _ => trivial) (fun _ _ => trivial) fun r hr => ?_
  · unfold pass
    dsimp only
    split
    · exact within_pure _
    · exact within_bind (within_perform trivial) fun n =>
        within_bind (within_request (.inr (.inl ⟨n, rfl⟩))) fun _ => within_done _
  · cases r with
    | ask q =>
      obtain rfl : q = .userUnlocked := hr
      exact .inr (.inr trivial)
    | call k =>
      obtain rfl : k = .exit := hr
      exact .inr (.inr trivial)
    | _ => exact hr.elim

theorem moved_of_advancing {event : ProvisionEvent}
    {q : Program (ProvisionState × ProvisionState)}
    (h : Walk (advance event) (l ++ [.request r x]) q) : l.filterMap Deed.moved? = [] := by
  have hunmoved (hl : ∀ d ∈ l ++ [.request r x], d.moved? = none) :
      l.filterMap Deed.moved? = [] :=
    List.filterMap_eq_nil_iff.mpr fun d hd => hl d (List.mem_append_left _ hd)
  have himmediate {α : Type} {p q : Program α} {k : List Deed} (hp : p.Within .immediate)
      (hk : Walk p k q) : .request r x ∉ k :=
    fun hmem => hp.walk (fun _ _ => trivial) hk _ hmem
  rcases walk_cursor h with hl | ⟨e, hl⟩ | ⟨p, k, hl, hk⟩
  · exact hunmoved (by simp [hl])
  · exact hunmoved (by simp [hl, Deed.moved?])
  cases hnext : p.next event with
  | none =>
    rw [hnext] at hk
    have hk : ∀ d ∈ k, d.moved? = none := by
      rcases walk_act.mp hk with ⟨rfl, -⟩ | ⟨y, k, rfl, hthrow⟩
      · simp
      · obtain ⟨rfl, -⟩ := walk_done.mp hthrow
        simp [Deed.moved?]
    exact hunmoved (hl ▸ List.forall_mem_cons.mpr ⟨rfl, hk⟩)
  | some n =>
    rw [hnext] at hk
    have hentry {k : List Deed} {q : Program Unit} (hk : Walk (onEntry event n) k q) :
        ∀ d ∈ k, d.moved? = none := by
      intro d hd
      have hw := (onEntry_within event n).walk (fun _ _ => trivial) hk d hd
      cases d with
      | act a y =>
        obtain rfl : a = .now := hw
        rfl
      | request r y => rfl
    rcases walk_write hk with rfl | ⟨e, rfl⟩ | ⟨u, k, rfl, hentered⟩
    · exact hunmoved (by simp [hl, Deed.moved?])
    · exact hunmoved (by simp [hl, Deed.moved?])
    rcases walk_bind hentered with ⟨s, hs, -⟩ | ⟨v, i, j, rfl, hi, hj⟩
    · exact hunmoved (hl ▸ List.forall_mem_cons.mpr
        ⟨rfl, List.forall_mem_cons.mpr ⟨rfl, hentry hs⟩⟩)
    -- The moves come after all requests.
    have hl : (_ :: _ :: i) ++ j = l ++ .request r x :: [] := hl.symm
    rcases Deed.split_at hl with ⟨t, ht⟩ | ⟨t, -, rfl⟩
    · have hi : ∀ d ∈ l ++ .request r x :: t, d.moved? = none :=
        ht ▸ List.forall_mem_cons.mpr ⟨rfl, List.forall_mem_cons.mpr ⟨rfl, hentry hi⟩⟩
      exact List.filterMap_eq_nil_iff.mpr fun d hd => hi d (List.mem_append_left _ hd)
    · refine absurd (by simp) (himmediate ?_ hj)
      exact within_bind (within_perform trivial) fun _ =>
        within_bind (within_perform trivial) fun _ => within_pure _

end Program

namespace Lane

variable {c c' : Core} {d : Deed} {p : ProvisionState} {l : List Deed}

theorem cursor_of_unmoved (hc : c.cursor = some p) (hd : d.Fits c) (hm : d.moved? = none) :
    (d.effect c).cursor = some p := by
  cases d with
  | act a x =>
    cases a with
    | moveCursor s => cases hm
    | _ => exact hc
  | request r x =>
    cases r with
    | cursor =>
      cases x with
      | error f => exact hc
      | ok s =>
        obtain rfl : s = c.position := hd
        simp [Deed.effect, Core.position, hc]
    | write k => cases x <;> exact hc
    | _ => exact hc

theorem Story.position_of_unmoved {r : Request} {x : r.Answer}
    {event : ProvisionEvent} {q : Program (ProvisionState × ProvisionState)}
    (hs : policy.Story c l c') (h : Walk (Program.advance event) (l ++ [.request r x]) q) :
    c'.position = c.position := by
  have hunmoved := moved_of_advancing h
  cases l with
  | nil => exact (Story.spares hs (by simp)).1
  | cons d l =>
    obtain ⟨p, hd⟩ : ∃ p, d = .request .cursor (.ok p) := by
      rcases walk_cursor h with hl | ⟨e, hl⟩ | ⟨p, k, hl, -⟩
      · cases hl
      · simp at hl
      · exact ⟨p, (List.cons.inj hl).1⟩
    subst hd
    obtain ⟨rfl, c₁, hc, hs⟩ := Core.Stands.of_cursor hs
    have hcursor : c'.cursor = some c.position := by
      refine Course.keeps (I := fun c' => c'.cursor = some c.position) hs
        (fun _ _ hr => hr.2.2 _) (fun d hd c₂ _ he h₂ => ?_) hc.cursor
      obtain ⟨hfits, rfl⟩ := he
      exact cursor_of_unmoved h₂ hfits (List.filterMap_eq_nil_iff.mp hunmoved d (.tail _ hd))
    simp [Core.position, hcursor]

end Lane

namespace Machine

variable {P : Action → Prop} {b m m₁ : Machine} {lane : Lane} {event : ProvisionEvent}
  {next : ProvisionState} {l : List Deed}

theorem ended_of_after {σ ι : Type} {p : Program (σ × Except Fault Reply)}
    {progress : Progress (σ × Except Fault Reply)} (h : progress.After p l) (q : Queue σ ι) :
    (q.settle progress).ended ≠ q.ended ++ [.panicked] := by
  cases h with
  | running => simp [JobQueue.settle, JobQueue.run]
  | ended hw =>
    rename_i r
    rcases r with f | ⟨v, a⟩ <;> simp [JobQueue.settle, JobQueue.finish]

theorem Works.panicked (h : Works lane P b l m) (hb : b.Follows .usual)
    (he : (m.engine.queue lane).ended = (b.engine.queue lane).ended ++ [.panicked]) :
    ∃ (m₁ m₂ : Machine) (c : Conduct) (r : Request)
      (rest : r.Answer → Program (lane.Value × Except Fault Reply)), Works lane P b l m₁ ∧
        (m₁.engine.queue lane).running = some (.wait r rest) ∧
          m₁.respond c r = (m₂, .panicked) := by
  induction h with
  | start hp hs =>
    obtain ⟨j, progress, hj, hafter, hq⟩ := start_queue hs
    rw [hq] at he
    exact absurd he (ended_of_after hafter _)
  | @own now l m m' c hw hp hs ih =>
    obtain ⟨p, m₁, progress, hrun, hres, rfl⟩ := resume_cases hs
    have hlog : m.log now (.resume (.job lane) c) = m.answered now c p := by
      simp only [log, hrun]
    obtain ⟨r, rest, rfl, ⟨rfl, hl, hx⟩ | ⟨x, m₂, -, hadv, -⟩⟩ := resume_after hres
    · rw [hlog, hl, List.append_nil]
      exact ⟨m, m₁, c, r, rest, hw, hrun, hx⟩
    · have hbusy : ¬ m.Idle lane := not_idle_of_running hrun
      have hsame : (m₁.engine.queue lane).ended = (b.engine.queue lane).ended := by
        rw [(resume_turn hres).queue, JobQueue.add_ended, hw.ended hb hbusy]
      have hafter := (advance_after m₂ now (rest x)).2
      rw [hadv] at hafter
      rw [Machine.settle, Engine.queue_put, ← hsame] at he
      exact absurd he (ended_of_after hafter _)
  | beside hw hp ha hr hs ih => exact ih ((step_frame hs hr).ended ha ▸ he)

theorem respond_cursor_ne {c : Conduct} {m₂ : Machine} {p : ProvisionState}
    (hc : m.engine.cursor = some p) : m.respond c .cursor ≠ (m₂, .panicked) := by
  simp [respond, hc]

theorem respond_join_ne {c : Conduct} {m₂ : Machine} {n : Nat} :
    m.respond c (.join n) ≠ (m₂, .panicked) := by
  cases h : m.engine.ends? n <;> simp [respond, h]

theorem next_ne {p n : ProvisionState} (h : p.next event = some n) : n ≠ p := by
  revert h
  cases p <;> cases event <;> cases n <;> decide

theorem respond_panicking {r : Request} (m : Machine) (hr : r.Exposed) :
    ∃ m₁, m.respond .panicking r = (m₁, .panicked) := by
  cases r with
  | load => exact ⟨m, rfl⟩
  | ask q => exact ⟨m, rfl⟩
  | call k => exact ⟨_, rfl⟩
  | _ => exact hr.elim

theorem Span.phase {r : Request}
    {rest : r.Answer → Program (Option LockMode × Except Fault Reply)}
    (h : Span .policy P b (.transition event) l m)
    (hnext : b.core.position.next event = some next)
    (hw : Walk (b.opening .policy (.transition event)) l (.wait r rest)) :
    (l.filterMap Deed.moved? = [] ∧ m.core.position = b.core.position) ∨
      (l.filterMap Deed.moved? = [next] ∧ m.core.Stands next next ∧
        (r = .cursor ∨ (∃ n, r = .join n) ∨ r.Exposed)) ∨
      l.filterMap Deed.moved? = [next, b.core.position] ∧ m.core.Stands b.core.position next := by
  obtain ⟨x⟩ := r.exists_answer
  have hasked := hw.append (.wait x (.stay _))
  obtain ⟨q, htransition⟩ := walk_of_opening hasked
  rcases walk_transition_stage htransition with ⟨s, hs⟩ | ⟨p, n, k, i, hl, hk, hi⟩
  · exact .inl ⟨moved_of_advancing hs, h.story.position_of_unmoved hs⟩
  -- The last thing a transition does before it enforces is no request.
  obtain ⟨t, rfl, rfl⟩ : ∃ t, l = k ++ t ∧ i = t ++ [.request r x] := by
    refine (Deed.split_at hl.symm).resolve_left ?_
    rintro ⟨t, rfl⟩
    have hnil : t ++ i = [] := by simpa using hl
    obtain ⟨rfl, -⟩ := List.append_eq_nil_iff.mp hnil
    obtain ⟨-, u, k', -, hk⟩ := ends_advance_ok hk
    have := congrArg List.reverse hk
    simp at this
  obtain ⟨rfl, c, hc, hs⟩ := TransitionEnd.stands_of_advance_ok h.story hk
  obtain rfl : n = next := Option.some.inj ((ends_advance_ok hk).1.symm.trans hnext)
  rw [List.filterMap_append, moved_of_advance hk]
  rcases hi with ⟨s, hi⟩ | ⟨e, a, f, s, ha, hi, hf⟩
  · have hunowned : ∀ d ∈ t, ¬ policy.Owns d := fun d hd => not_owns_of_enforcing
      ((enforce_within false).walk (fun _ _ => trivial) hi d (List.mem_append_left _ hd))
    have hr : (Deed.request r x).Within .exposed :=
      (enforce_exposed false).walk (fun _ _ => trivial) hi _ (by simp)
    rw [moved_of_unowned hunowned]
    exact .inr (.inl ⟨rfl, hc.still hs hunowned, hr⟩)
  · obtain ⟨t, rfl, rfl⟩ : ∃ u, t = a ++ .act (.moveCursor b.core.position) () :: u ∧
        f = u ++ [.request r x] := by
      rcases Deed.split_at hi.symm with ⟨u, rfl⟩ | ⟨u, rfl, hu⟩
      · simp at hi
      · cases u with
        | nil => cases hu
        | cons d u =>
          obtain ⟨rfl, rfl⟩ := List.cons.inj hu
          exact ⟨u, rfl, rfl⟩
    obtain ⟨-, c₁, h₁, hs⟩ := TransitionEnd.enforce_reads hc hs ha
    obtain ⟨c₂, h₂, hs⟩ := h₁.move hs
    have hunowned : ∀ d ∈ t, ¬ policy.Owns d := fun d hd => not_owns_of_escalating
      ((critical_within _ _).walk (fun _ _ => trivial) hf d (List.mem_append_left _ hd))
    have hreturned : (Deed.act (.moveCursor b.core.position) ()).moved? = some b.core.position :=
      rfl
    rw [List.filterMap_append, List.filterMap_cons_some hreturned, moved_of_unowned hunowned,
      moved_of_unowned fun d hd => not_owns_of_enforcing (enforce_deeds ha d hd)]
    exact .inr (.inr ⟨rfl, h₂.still hs hunowned⟩)

theorem Span.entered {r : Request}
    {rest : r.Answer → Program (Option LockMode × Except Fault Reply)}
    (h : Span .policy P b (.transition event) l m)
    (hnext : b.core.position.next event = some next)
    (hw : Walk (b.opening .policy (.transition event)) l (.wait r rest))
    (hmoved : l.filterMap Deed.moved? = [next]) :
    m.core.Stands next next ∧ (r = .cursor ∨ (∃ n, r = .join n) ∨ r.Exposed) := by
  rcases h.phase hnext hw with ⟨hl, -⟩ | ⟨-, hentered⟩ | ⟨hl, -⟩
  · cases hmoved.symm.trans hl
  · exact hentered
  · cases hmoved.symm.trans hl

theorem Works.panics {r : Request} {rest : r.Answer → Program (lane.Value × Except Fault Reply)}
    (h : Works lane (fun _ => True) b l m) (hb : b.Follows .usual)
    (hrun : (m.engine.queue lane).running = some (.wait r rest)) (hr : r.Exposed)
    (now : Timestamp) :
    ∃ m', m.step? now (.resume (.job lane) .panicking) = some m' ∧
      Works lane (fun _ => True) b l m' ∧
        (m'.engine.queue lane).ended = (b.engine.queue lane).ended ++ [.panicked] ∧
          m'.core = m.core := by
  obtain ⟨m₁, hx⟩ := respond_panicking m hr
  obtain ⟨hcore, hengine⟩ := respond_of_panicked hx
  have hresume : m.resume? now .panicking (.wait r rest) = some (m₁, .panicked) := by
    simp only [resume?, hx]
  have hs : m.step? now (.resume (.job lane) .panicking) = some (m₁.settle lane .panicked) :=
    resume_of_running hrun hresume
  have hlog : m.log now (.resume (.job lane) .panicking) = [] := by
    simp only [log, hrun, answered, hx]
  have hown := h.own trivial hs
  rw [hlog, List.append_nil] at hown
  refine ⟨_, hs, hown, ?_, ?_⟩
  · rw [Machine.settle, Engine.queue_put, hengine]
    exact congrArg (· ++ [.panicked]) (h.ended hb (not_idle_of_running hrun))
  · rw [← hcore]
    simp [Machine.core, settle]

/-- A transition that panics leaves the mode as it was, and it leaves the cursor as it was if the
panic comes before the cursor has been moved or after it has been moved back. A panic between, for
which the enforcement of the next state has as many occasions as it turns to a collaborator, leaves
the cursor on a state whose policies have not been applied. -/
theorem panicked_transition (hb : b.Reachable)
    (hj : b.engine.policy.next? = some (.transition event))
    (hnext : b.core.position.next event = some next) :
    (∀ l m, Works .policy (fun _ => True) b l m →
      m.engine.policy.ended = b.engine.policy.ended ++ [.panicked] →
        m.engine.policy.value = b.engine.policy.value ∧
        (l.filterMap Deed.moved? = [] ∨ l.filterMap Deed.moved? = [next] ∨
          l.filterMap Deed.moved? = [next, b.core.position]) ∧
        (l.filterMap Deed.moved? = [next] ↔ m.core.position ≠ b.core.position) ∧
        (l.filterMap Deed.moved? = [next] → m.core.Stands next next ∧ ∃ r rest,
          Walk (b.opening .policy (.transition event)) l (.wait r rest) ∧ r.Exposed)) ∧
    ∀ l m r rest, Works .policy (fun _ => True) b l m →
      m.engine.policy.running = some (.wait r rest) → r.Exposed →
        l.filterMap Deed.moved? = [next] → ∀ now, ∃ m',
          m.step? now (.resume (.job .policy) .panicking) = some m' ∧
            Works .policy (fun _ => True) b l m' ∧
            m'.engine.policy.ended = b.engine.policy.ended ++ [.panicked] ∧
            m'.core.Stands next next := by
  refine ⟨fun l m hw he => ?_, fun l m r rest hw hrun hr hmoved now => ?_⟩
  · obtain ⟨m₁, m₂, c, r, rest, hw₁, hrun, hpanicked⟩ := hw.panicked hb.usual he
    have hspan := hw.span_of_next hb.usual hj
    have hspan₁ := hw₁.span_of_next hb.usual hj
    have hwalk := hspan₁.running hrun
    have hvalue : m.engine.policy.value = b.engine.policy.value := hspan.value he
    have hlaid : l.filterMap Deed.moved? = [next] → m.core.Stands next next ∧ r.Exposed := by
      intro hmoved
      obtain ⟨hstands, -⟩ := hspan₁.entered hnext hwalk hmoved
      obtain ⟨h, rfl | ⟨n, rfl⟩ | hr⟩ := hspan.entered hnext hwalk hmoved
      · exact absurd hpanicked (respond_cursor_ne hstands.cursor)
      · exact absurd hpanicked respond_join_ne
      · exact ⟨h, hr⟩
    have hne : next ≠ b.core.position := next_ne hnext
    refine ⟨hvalue, ?_, ?_, fun hmoved => ⟨(hlaid hmoved).1, r, rest, hwalk, (hlaid hmoved).2⟩⟩
    · exact (hspan.phase hnext hwalk).imp (·.1) (.imp (·.1) (·.1))
    · rcases hspan.phase hnext hwalk with ⟨h, hp⟩ | ⟨h, hs, -⟩ | ⟨h, hs⟩
      · simp [h, hp]
      · simp [h, hs.position, hne]
      · simp [h, hs.position]
  · have hspan := hw.span_of_next hb.usual hj
    have hstands := (hspan.entered hnext (hspan.running hrun) hmoved).1
    obtain ⟨m', hs, hw', he, hcore⟩ := hw.panics hb.usual hrun hr now
    exact ⟨m', hs, hw', he, hcore ▸ hstands⟩

def brokenLoad : List Action := Action.goesOn .policy 5 ++ [Action.resume (.job .policy) .panicking]

theorem exists_brokenLoad :
    ∃ l m, Works .policy (fun _ => True) ((plain []).launch epoch (raise .ready)) l m ∧
      m.Idle .policy ∧ m.engine.policy.ended = [.panicked] ∧ m.core.position = .inProgress := by
  obtain ⟨m₁, hs⟩ : ∃ m₁, ((plain []).launch epoch (raise .ready)).step? epoch
      (.start .policy) = some m₁ := ⟨_, rfl⟩
  have hrun : (m₁.run? epoch brokenLoad).any (fun m => m.engine.policy.running.isNone &&
      decide (m.engine.policy.ended = [.panicked] ∧ m.core.position = .inProgress)) = true := by
    obtain rfl := Option.some.inj hs
    rfl
  obtain ⟨m, hm, hends⟩ := (Option.any_eq_true _ _).mp hrun
  simp only [Bool.and_eq_true, Option.isNone_iff_eq_none, decide_eq_true_eq] at hends
  have hown : ∀ a ∈ brokenLoad, ∃ c, a = .resume (.job .policy) c := by
    simp [brokenLoad, Action.goesOn]
  obtain ⟨l, hw⟩ := (Works.start (P := fun _ => True) trivial hs).run
    (fun a ha => ⟨trivial, hown a ha⟩) hm
  exact ⟨l, m, hw, hends⟩

theorem reachable_raised : ((plain []).launch epoch (raise .ready)).Reachable :=
  ⟨{}, plain [], plain_fresh [], .step (.refl _) trivial (show (plain []).step? epoch
    (.call (.event .ready)) = some _ from rfl)⟩

theorem panicked_transition_ready :
    ∃ b l m, Reachable b ∧ Works .policy (fun _ => True) b l m ∧
      m.engine.policy.ended = b.engine.policy.ended ++ [.panicked] ∧
        m.engine.policy.value = b.engine.policy.value ∧
          l.filterMap Deed.moved? = [.inProgress] ∧ m.core.Stands .inProgress .inProgress := by
  obtain ⟨l, m, hw, -, he, hp⟩ := exists_brokenLoad
  have hadmits : ProvisionState.unprovisioned.next .ready = some .inProgress := rfl
  obtain ⟨hvalue, -, hiff, hlaid⟩ := (panicked_transition reachable_raised rfl hadmits).1 l m hw he
  have hmoved := hiff.mpr (by rw [hp]; decide)
  exact ⟨_, l, m, reachable_raised, hw, he, hvalue, hmoved, (hlaid hmoved).1⟩

theorem unrestored_cursor :
    ∃ b l m, Reachable b ∧ b.engine.policy.next? = some (.transition .ready) ∧
      Works .policy (fun _ => True) b l m ∧ m.Idle .policy ∧
        m.engine.policy.ended = b.engine.policy.ended ++ [.panicked] ∧
          b.core.position = .unprovisioned ∧ m.core.position = .inProgress := by
  obtain ⟨l, m, hw, hidle, he, hp⟩ := exists_brokenLoad
  exact ⟨_, l, m, reachable_raised, rfl, hw, hidle, he, rfl, hp⟩

end Machine

end DeviceLock
