import DeviceLock.Proofs.Engine.Position
import DeviceLock.Proofs.Engine.Resumption
import Mathlib.Logic.ExistsUnique

namespace DeviceLock

open Program Lane

inductive TransitionEnd
  | refused
  | notEntered
  | applied
  | rolledBack
  | gaveUp

namespace Machine

structure Concludes (b m : Machine) (value : Option LockMode) (answer : Except Fault Reply) :
    Prop where
  ended : m.engine.policy.ended = b.engine.policy.ended ++ [.done value answer]
  value : m.engine.policy.value = value

theorem Concludes.answer_unique {b m : Machine} {v w : Option LockMode}
    {x y : Except Fault Reply} (h : b.Concludes m v x) (h' : b.Concludes m w y) : x = y := by
  have := List.append_cancel_left (h.ended.symm.trans h'.ended)
  simp only [List.cons.injEq, Ending.done.injEq] at this
  exact this.1.2

end Machine

namespace TransitionEnd

/-- What each way means for a job that starts in the one state, with these deeds, and leads to the
other state. -/
def Describes (b : Machine) (event : ProvisionEvent) (l : List Deed) (m : Machine) :
    TransitionEnd → Prop
  | refused =>
    ∃ e, b.Concludes m b.engine.policy.value (.error e) ∧
      ((∃ f, e = .storage f ∧ .request .cursor (.error f) ∈ l) ∨
        e = .illegalTransition b.core.position event ∧ b.core.position.next event = none) ∧
      (∀ d ∈ l, d.collaborator? = none) ∧
      m.core.position = b.core.position ∧
      m.core.document.provision = b.core.document.provision
  | notEntered =>
    ∃ next e, b.core.position.next event = some next ∧
      b.Concludes m b.engine.policy.value (.error e) ∧
      (∃ k d, l = k ++ [d] ∧ d.fault? = some e) ∧
      (∀ d ∈ l, d.collaborator? = none ∨ d.collaborator? = some .store ∨
        d.collaborator? = some .platform) ∧
      m.core.position = b.core.position ∧
      ((∃ f, .request (.write (.provision next)) (.error f) ∈ l) ∧
          m.core.document.provision = b.core.document.provision ∨
        .request (.write (.provision next)) (.ok ()) ∈ l ∧ m.core.document.provision = next)
  | applied =>
    ∃ next doc j k, b.core.position.next event = some next ∧
      l = j ++ .request .cursor (.ok next) :: .request .load (.ok doc) :: k ∧
      Ends (enforce false) (.request .cursor (.ok next) :: .request .load (.ok doc) :: k)
        (.ok (.resolve next doc.device)) ∧
      b.Concludes m (some (.resolve next doc.device)) (.ok (.provision next)) ∧
      .request (.write (.provision next)) (.ok ()) ∈ l ∧
      (∀ d ∈ l, d.collaborator? ≠ some .recovery) ∧
      m.core.Stands next next
  | rolledBack =>
    ∃ next e k, b.core.position.next event = some next ∧
      .request .cursor (.ok next) :: k <:+: l ∧
      Ends (enforce false) (.request .cursor (.ok next) :: k) (.error e) ∧
      b.Concludes m (some .criticalError) (.error e) ∧
      .request (.call (.reset e.message)) (.ok ()) ∈ l ∧
      .request (.call (.reportCritical e.message)) (.ok ()) ∈ l ∧
      (∀ r x, .request (.call (.terminate r)) x ∉ l) ∧
      m.core.Stands b.core.position next
  | gaveUp =>
    ∃ next e f j k x y, b.core.position.next event = some next ∧
      .request .cursor (.ok next) :: j <:+: l ∧
      Ends (enforce false) (.request .cursor (.ok next) :: j) (.error e) ∧
      k <:+: l ∧ Ends (forceCritical e.message) k (.error f) ∧
      b.Concludes m b.engine.policy.value (.error (.critical (criticalReason e.message f))) ∧
      .request (.call (.alarm .criticalEnforcementRetry
        b.engine.config.recovery.criticalRetry)) x ∈ l ∧
      .request (.call (.terminate (criticalReason e.message f))) y ∈ l ∧
      m.core.Stands b.core.position next

variable {b m : Machine} {event : ProvisionEvent} {k l : List Deed} {e : Fault}
  {p next : ProvisionState} {v : Option LockMode} {r : Except Fault ProvisionState}

theorem Describes.marks {x : TransitionEnd} (h : x.Describes b event l m) :
    ((∃ v a, b.Concludes m v (.ok a)) ↔ x = applied) ∧
      ((∀ d ∈ l, d.collaborator? = none) ↔ x = refused) ∧
      ((∃ d ∈ l, d.collaborator? = some .recovery) ↔ x = rolledBack ∨ x = gaveUp) ∧
      ((∃ r y, .request (.call (.terminate r)) y ∈ l) ↔ x = gaveUp) := by
  have hfails {v : Option LockMode} {f : Fault} (h : b.Concludes m v (.error f)) :
      ¬ ∃ v a, b.Concludes m v (.ok a) := by
    rintro ⟨w, a, h'⟩
    cases h.answer_unique h'
  have hloud {d : Deed} {y : Collaborator} (hd : d ∈ l) (hy : d.collaborator? = some y) :
      ¬ ∀ d ∈ l, d.collaborator? = none := by
    intro hall
    cases hy.symm.trans (hall d hd)
  have hterminate (hn : ∀ d ∈ l, d.collaborator? ≠ some .recovery) :
      ¬ ∃ r y, .request (.call (.terminate r)) y ∈ l := by
    rintro ⟨r, y, hmem⟩
    exact hn _ hmem rfl
  cases x with
  | refused =>
    obtain ⟨e, hc, -, hn, -⟩ := h
    have hr : ∀ d ∈ l, d.collaborator? ≠ some .recovery := fun d hd => by simp [hn d hd]
    simpa [hfails hc, hterminate hr] using And.intro hn hr
  | notEntered =>
    obtain ⟨next, e, -, hc, -, hn, -, hw⟩ := h
    have hr : ∀ d ∈ l, d.collaborator? ≠ some .recovery := fun d hd => by
      rcases hn d hd with h | h | h <;> simp [h]
    have hs : ¬ ∀ d ∈ l, d.collaborator? = none := by
      rcases hw with ⟨⟨f, hw⟩, -⟩ | ⟨hw, -⟩ <;> exact hloud hw rfl
    simpa [hfails hc, hterminate hr, hs] using hr
  | applied =>
    obtain ⟨next, doc, j, k, -, -, -, hc, hw, hr, -⟩ := h
    simpa [hterminate hr, hloud hw rfl] using ⟨⟨_, _, hc⟩, hr⟩
  | rolledBack =>
    obtain ⟨next, e, k, -, -, -, hc, hw, -, ht, -⟩ := h
    simpa [hfails hc, hloud hw rfl] using ⟨⟨_, hw, rfl⟩, ht⟩
  | gaveUp =>
    obtain ⟨next, e, f, j, k, y, z, -, -, -, -, -, hc, hw, ht, -⟩ := h
    simpa [hfails hc, hloud hw rfl] using ⟨⟨_, hw, rfl⟩, _, _, ht⟩

theorem Describes.unique {x y : TransitionEnd} (hx : x.Describes b event l m)
    (hy : y.Describes b event l m) : x = y := by
  obtain ⟨hx₁, hx₂, hx₃, hx₄⟩ := hx.marks
  obtain ⟨hy₁, hy₂, hy₃, hy₄⟩ := hy.marks
  rw [hx₁] at hy₁
  rw [hx₂] at hy₂
  rw [hx₃] at hy₃
  rw [hx₄] at hy₄
  cases x <;> cases y <;> simp_all

theorem Describes.position {x : TransitionEnd} (h : x.Describes b event l m)
    (hc : b.Concludes m v (r.map .provision)) :
    (∃ n, r = .ok n ∧ b.core.position.next event = some n ∧ m.core.position = n) ∨
      ∃ e, r = .error e ∧ m.core.position = b.core.position := by
  have hfails {w : Option LockMode} {e : Fault} (h' : b.Concludes m w (.error e)) :
      ∃ e, r = .error e := by
    have := hc.answer_unique h'
    cases r with
    | error f => exact ⟨f, rfl⟩
    | ok n => cases this
  cases x with
  | refused =>
    obtain ⟨e, hc', -, -, hp, -⟩ := h
    obtain ⟨f, rfl⟩ := hfails hc'
    exact .inr ⟨f, rfl, hp⟩
  | notEntered =>
    obtain ⟨next, e, -, hc', -, -, hp, -⟩ := h
    obtain ⟨f, rfl⟩ := hfails hc'
    exact .inr ⟨f, rfl, hp⟩
  | applied =>
    obtain ⟨next, doc, j, k, hnext, -, -, hc', -, -, hs⟩ := h
    have := hc.answer_unique hc'
    cases r with
    | error f => cases this
    | ok n =>
      obtain rfl := Reply.provision.inj (Except.ok.inj this)
      exact .inl ⟨n, rfl, hnext, hs.position⟩
  | rolledBack =>
    obtain ⟨next, e, k, -, -, -, hc', -, -, -, hs⟩ := h
    obtain ⟨f, rfl⟩ := hfails hc'
    exact .inr ⟨f, rfl, hs.position⟩
  | gaveUp =>
    obtain ⟨next, e, f, j, k, y, z, -, -, -, -, -, hc', -, -, hs⟩ := h
    obtain ⟨f, rfl⟩ := hfails hc'
    exact .inr ⟨f, rfl, hs.position⟩

theorem exists_of_advance_error (hs : policy.Story b.core l m.core)
    (h : Ends (advance event) l (.error e))
    (hc : b.Concludes m b.engine.policy.value (.error e)) :
    ∃ x : TransitionEnd, x.Describes b event l m := by
  rcases ends_advance_error h with ⟨f, rfl, rfl⟩ | ⟨p, k, rfl, hk⟩
  · have hspares := hs.spares (by simp [Owns])
    refine ⟨refused, _, hc, .inl ⟨f, rfl, by simp⟩, ?_, hspares.1, hspares.2.1⟩
    simp [Deed.collaborator?]
  obtain ⟨rfl, c, hstands, hs⟩ := Core.Stands.of_cursor hs
  rcases hk with ⟨hnext, rfl, rfl⟩ | ⟨next, hnext, (⟨f, rfl, rfl⟩ | ⟨u, a, rfl, ha⟩)⟩
  · have h' := hstands.still hs (by simp [Owns])
    refine ⟨refused, _, hc, .inr ⟨rfl, hnext⟩, ?_, h'.position, h'.stored⟩
    simp [Deed.collaborator?]
  · have h' := hstands.still hs (by simp [Owns])
    refine ⟨notEntered, next, _, hnext, hc, ⟨[_], _, rfl, rfl⟩, ?_, h'.position,
      .inl ⟨⟨f, by simp⟩, h'.stored⟩⟩
    simp [Deed.collaborator?]
  · obtain ⟨c₁, h₁, hs⟩ := hstands.write hs
    have hentry := onEntry_deeds ha
    have h' := h₁.still hs fun d hd => not_owns_of_entering (hentry d hd)
    obtain ⟨k, d, rfl, hd⟩ := onEntry_faithful event next _ _ ha
    refine ⟨notEntered, next, e, hnext, hc, ⟨_ :: _ :: k, d, rfl, hd⟩, ?_, h'.position,
      .inr ⟨by simp, h'.stored⟩⟩
    refine List.forall_mem_cons.mpr ⟨.inl rfl, List.forall_mem_cons.mpr ⟨.inr (.inl rfl), ?_⟩⟩
    exact fun d hd => Deed.collaborator?_of_entering (hentry d hd)

theorem stands_of_advance_ok {c₀ c : Core} (hs : policy.Story c₀ (k ++ l) c)
    (h : Ends (advance event) k (.ok (p, next))) :
    p = c₀.position ∧ ∃ c₁ : Core, c₁.Stands next next ∧ policy.Story c₁ l c := by
  obtain ⟨-, u, a, ha, rfl⟩ := ends_advance_ok h
  have hentry : ∀ d ∈ a, ¬ policy.Owns d := fun d hd => not_owns_of_entering (onEntry_deeds ha d hd)
  simp only [List.cons_append, List.append_assoc] at hs
  obtain ⟨hp, c₁, h₁, hs⟩ := Core.Stands.of_cursor hs
  obtain ⟨c₂, h₂, hs⟩ := h₁.write hs
  obtain ⟨c₃, h₃, hs⟩ := h₂.segment hs hentry
  obtain ⟨c₄, h₄, hs⟩ := h₃.move hs
  obtain ⟨c₅, h₅, hs⟩ := h₄.segment (k := [_]) hs (by simp [Owns])
  exact ⟨hp, c₅, h₅, hs⟩

theorem not_recovery_of_advance_ok (h : Ends (advance event) k (.ok (p, next))) :
    ∀ d ∈ k, d.collaborator? ≠ some .recovery := by
  obtain ⟨-, u, a, ha, rfl⟩ := ends_advance_ok h
  intro d hd
  simp only [List.mem_cons, List.mem_append, List.not_mem_nil, or_false] at hd
  rcases hd with rfl | rfl | hd | rfl | rfl
  · simp [Deed.collaborator?]
  · simp [Deed.collaborator?]
  · rcases Deed.collaborator?_of_entering (onEntry_deeds ha d hd) with h | h | h <;> simp [h]
  · simp [Deed.collaborator?]
  · simp [Deed.collaborator?]

theorem enforce_reads {c c' : Core} {s : ProvisionState} {critical : Bool}
    {r : Except Fault LockMode} (hc : c.Stands p s) (hs : policy.Story c (k ++ l) c')
    (h : Ends (enforce critical) k r) :
    (∃ a, k = .request .cursor (.ok p) :: a) ∧
      ∃ c₁ : Core, c₁.Stands p s ∧ policy.Story c₁ l c' := by
  refine ⟨?_, hc.segment hs fun d hd => not_owns_of_enforcing (enforce_deeds h d hd)⟩
  obtain ⟨x, a, rfl⟩ := ends_enforce_head h
  exact ⟨a, by rw [hc.read hs]⟩

theorem applied_of_ends {mode : LockMode} (hs : policy.Story b.core (k ++ l) m.core)
    (hk : Ends (advance event) k (.ok (p, next))) (hl : Ends (enforce false) l (.ok mode))
    (hc : b.Concludes m (some mode) (.ok (.provision next))) :
    applied.Describes b event (k ++ l) m := by
  obtain ⟨rfl, c, hstands, hs'⟩ := stands_of_advance_ok hs hk
  rw [← List.append_nil l] at hs'
  obtain ⟨⟨a, ha⟩, c₁, h₁, hs₁⟩ := enforce_reads hstands hs' hl
  obtain ⟨q, doc, a₁, a₂, rfl, rfl, -⟩ := ends_enforce hl
  simp only [List.cons.injEq, Deed.request.injEq, heq_eq_eq, true_and, Except.ok.injEq] at ha
  obtain ⟨rfl, -⟩ := ha
  have hw : .request (.write (.provision q)) (.ok ()) ∈ k := by
    obtain ⟨-, u, a, -, rfl⟩ := ends_advance_ok hk
    simp
  refine ⟨q, doc, k, _, (ends_advance_ok hk).1, rfl, hl, hc, List.mem_append_left _ hw, ?_,
    h₁.still hs₁ (by simp)⟩
  intro d hd
  rcases List.mem_append.mp hd with hd | hd
  · exact not_recovery_of_advance_ok hk d hd
  · exact (Deed.collaborator?_of_enforcing (enforce_deeds hl d hd)).2

theorem stands_of_rollback {config : RecoveryConfig} {c₀ c : Core} {j : List Deed}
    {r : Except Fault LockMode}
    (hs : policy.Story c₀ (k ++ (j ++ .act (.moveCursor p) () :: l)) c)
    (hk : Ends (advance event) k (.ok (p, next))) (hj : Ends (enforce false) j (.error e))
    (hl : Ends (critical config e.message) l r) :
    p = c₀.position ∧ (∃ a, j = .request .cursor (.ok next) :: a) ∧ c.Stands p next := by
  obtain ⟨hp, c, hstands, hs⟩ := stands_of_advance_ok hs hk
  obtain ⟨hhead, c₁, h₁, hs⟩ := enforce_reads hstands hs hj
  obtain ⟨c₂, h₂, hs⟩ := h₁.move hs
  exact ⟨hp, hhead, h₂.still hs fun d hd => not_owns_of_escalating (critical_deeds hl d hd)⟩

theorem rolledBack_of_ends {config : RecoveryConfig} {mode : LockMode} {j : List Deed}
    (hs : policy.Story b.core (k ++ (j ++ .act (.moveCursor p) () :: l)) m.core)
    (hk : Ends (advance event) k (.ok (p, next))) (hj : Ends (enforce false) j (.error e))
    (hl : Ends (critical config e.message) l (.ok mode))
    (hc : b.Concludes m (some mode) (.error e)) :
    rolledBack.Describes b event (k ++ (j ++ .act (.moveCursor p) () :: l)) m := by
  obtain ⟨rfl, ⟨a, rfl⟩, hstands⟩ := stands_of_rollback hs hk hj hl
  obtain ⟨rfl, q, u, v, hq, rfl⟩ := ends_critical_ok hl
  refine ⟨next, e, a, (ends_advance_ok hk).1, List.infix_append' _ _ _, hj, hc, by simp, by simp,
    ?_, hstands⟩
  intro reason x hmem
  have henforcing {d : Deed} (hd : d.Within .enforcing) (he : d.collaborator? = some .recovery) :
      False := (Deed.collaborator?_of_enforcing hd).2 he
  rcases List.mem_append.mp hmem with hmem | hmem
  · exact not_recovery_of_advance_ok hk _ hmem rfl
  rcases List.mem_append.mp hmem with hmem | hmem
  · exact henforcing (enforce_deeds hj _ hmem) rfl
  rcases List.mem_cons.mp hmem with hmem | hmem
  · cases hmem
  rcases List.mem_append.mp hmem with hmem | hmem
  · exact henforcing (enforce_deeds hq _ hmem) rfl
  · simp at hmem

theorem gaveUp_of_ends {f : Fault} {j : List Deed}
    (hs : policy.Story b.core (k ++ (j ++ .act (.moveCursor p) () :: l)) m.core)
    (hk : Ends (advance event) k (.ok (p, next))) (hj : Ends (enforce false) j (.error e))
    (hl : Ends (critical b.engine.config.recovery e.message) l (.error f))
    (hc : b.Concludes m b.engine.policy.value (.error f)) :
    gaveUp.Describes b event (k ++ (j ++ .act (.moveCursor p) () :: l)) m := by
  obtain ⟨rfl, ⟨a, rfl⟩, hstands⟩ := stands_of_rollback hs hk hj hl
  obtain ⟨f, q, x, y, hq, rfl, rfl⟩ := ends_critical_error hl
  refine ⟨next, e, f, a, q, x, y, (ends_advance_ok hk).1, List.infix_append' _ _ _, hj, ?_, hq, hc,
    by simp, by simp, hstands⟩
  have := List.infix_append'
    (k ++ .request .cursor (.ok next) :: a ++ [.act (.moveCursor b.core.position) ()]) q
  simpa only [List.append_assoc, List.cons_append, List.nil_append] using this _

theorem exists_of_ends (hs : policy.Story b.core l m.core)
    (h : Ends (transition b.engine.config.recovery b.engine.policy.value event) l (.ok (v, r)))
    (hc : b.Concludes m v (r.map .provision)) : ∃ x : TransitionEnd, x.Describes b event l m := by
  rcases ends_transition h with ⟨e, he, hr⟩ | ⟨p, n, k, j, rfl, hk, h⟩
  · obtain ⟨rfl, rfl⟩ := Prod.mk.inj (Except.ok.inj hr)
    exact exists_of_advance_error hs he hc
  rcases h with ⟨mode, hmode, hr⟩ | ⟨e, a, l, ha, rfl, ⟨mode, hl, hr⟩ | ⟨f, hl, hr⟩⟩
  · obtain ⟨rfl, rfl⟩ := Prod.mk.inj (Except.ok.inj hr)
    exact ⟨applied, applied_of_ends hs hk hmode hc⟩
  · obtain ⟨rfl, rfl⟩ := Prod.mk.inj (Except.ok.inj hr)
    exact ⟨rolledBack, rolledBack_of_ends hs hk ha hl hc⟩
  · obtain ⟨rfl, rfl⟩ := Prod.mk.inj (Except.ok.inj hr)
    exact ⟨gaveUp, gaveUp_of_ends hs hk ha hl hc⟩

end TransitionEnd

namespace Machine

variable {b m : Machine} {event : ProvisionEvent} {l : List Deed}

theorem concludes_of_ending {e : Ending (Option LockMode) (Except Fault Reply) Fault}
    {C : Conduct → Prop} (h : Ending.Of C (b.opening .policy (.transition event)) l e)
    (hC : ∀ c, C c → c.Calm) :
    ∃ v r, e = .done v (r.map .provision) ∧
      Ends (transition b.engine.config.recovery b.engine.policy.value event) l (.ok (v, r)) := by
  cases h with
  | done h =>
    obtain ⟨v, r, hk, hr⟩ := PolicyJob.ends_transition.mp h
    obtain ⟨rfl, rfl⟩ := Prod.mk.inj (Except.ok.inj hr)
    exact ⟨_, r, rfl, hk⟩
  | failed h =>
    obtain ⟨v, r, -, hr⟩ := PolicyJob.ends_transition.mp h
    cases hr
  | panicked _ hc hn => exact absurd (hC _ hc) hn

/-- A queued transition can start, comes to its end, and ends in exactly one of the five ways. -/
theorem transition_protocol (hb : b.Reachable)
    (hnext : b.engine.policy.next? = some (.transition event)) :
    (∀ now, ∃ m, b.step? now (.start .policy) = some m) ∧
      ∀ l m, Works .policy (Action.Under .policy Conduct.Calm) b l m →
        l.countP Deed.isRequest ≤ 17 ∧
          (m.Idle .policy → ∃! x : TransitionEnd, x.Describes b event l m) ∧
            (¬ m.Idle .policy → l.countP Deed.isRequest < 17 ∧
              ((∀ now c, c.Calm → ∃ m', m.step? now (.resume (.job .policy) c) = some m') ∨
                ∃ n k, ∀ now result, ∃ m', m.step? now (.callbackEnds n k result) = some m')) := by
  have hn : (b.engine.queue .policy).next? = some (.transition event) := hnext
  refine ⟨fun now => ⟨_, start_of_next hn now⟩, fun l m hw => ?_⟩
  have hspan := hw.span_of_next hb.usual hn
  have hbrief : (b.opening .policy (.transition event)).Brief 17 :=
    brief_bind (k := 0) (transition_brief _ _ event) fun _ => brief_pure _ _
  have hgrounded : (b.opening .policy (.transition event)).Grounded fun _ => False :=
    grounded_bind (transition_grounded _ _ event) fun _ => trivial
  cases hspan.stage with
  | running hr hwalk he hv =>
    rename_i r next
    have hbusy : ¬ m.Idle .policy := not_idle_of_running hr
    obtain ⟨n, hn, k, rfl, -⟩ := hwalk.brief hbrief
    refine ⟨by omega, fun hidle => absurd hidle hbusy, fun _ => ⟨by omega, ?_⟩⟩
    have hwithin := Meets.walk (opening_within b .policy (.transition event)) hwalk fun d _ => by
      cases d <;> trivial
    refine resume_or_callback hr (fun t ht => ?_) fun n hn => ?_
    · subst ht
      exact hwithin.2.1
    · obtain ⟨d, hd, hissued⟩ | h := (hwalk.grounded hgrounded).1 n hn
      · exact hspan.issued d hd n hissued
      · exact h.elim
  | ended hidle hend he hv =>
    obtain ⟨v, r, rfl, hends⟩ := concludes_of_ending hend fun c hc => hc c rfl
    obtain ⟨n, hcount, -⟩ := Walk.brief hends (transition_brief _ _ event)
    refine ⟨by omega, fun _ => ?_, fun hbusy => absurd hidle hbusy⟩
    obtain ⟨x, hx⟩ := TransitionEnd.exists_of_ends hspan.story hends ⟨he, hv⟩
    exact ⟨x, hx, fun y hy => hy.unique hx⟩

theorem transition_protocol_ready :
    ∃ l m, Works .policy (Action.Under .policy Conduct.Calm)
        ((plain []).launch epoch (raise .ready)) l m ∧
      m.Idle .policy ∧
        ∃! x : TransitionEnd, x.Describes ((plain []).launch epoch (raise .ready)) .ready l m := by
  have hb : ((plain []).launch epoch (raise .ready)).Reachable :=
    ⟨{}, plain [], plain_fresh [], .step (.refl _) trivial (show (plain []).step? epoch
      (.call (.event .ready)) = some _ from rfl)⟩
  have hnext : ((plain []).launch epoch (raise .ready)).engine.policy.next? =
      some (.transition .ready) := rfl
  obtain ⟨hstart, hworks⟩ := transition_protocol hb hnext
  obtain ⟨m₁, hs⟩ := hstart epoch
  have hrun : (m₁.run? epoch (List.replicate 8 (.resume (.job .policy) {}))).any
      (·.engine.policy.running.isNone) = true := by
    obtain rfl := Option.some.inj hs
    rfl
  obtain ⟨m, hm, hidle⟩ := (Option.any_eq_true _ _).mp hrun
  obtain ⟨l, hw⟩ := (Works.start Action.under_start hs).run (fun a ha => by
    obtain rfl := List.eq_of_mem_replicate ha
    exact ⟨Action.under_resume.mpr Conduct.calm_default, {}, rfl⟩) hm
  have hidle : m.Idle .policy := Option.isNone_iff_eq_none.mp hidle
  exact ⟨l, m, hw, hidle, (hworks l m hw).2.1 hidle⟩

end Machine

end DeviceLock
