import DeviceLock.Proofs.Engine.Position
import Mathlib.Data.List.Chain

namespace DeviceLock

open Program Lane

namespace ProvisionState

def Succeeds (p q : ProvisionState) : Prop := q = p ∨ ∃ event, p.next event = some q

theorem Succeeds.hasKiosk {p q : ProvisionState} (h : p.Succeeds q) (hp : p.hasKiosk = true) :
    q.hasKiosk = true := by
  rcases h with rfl | ⟨event, h⟩
  · exact hp
  · exact hasKiosk_of_next h hp

end ProvisionState

def Footprint.settling (p n : ProvisionState) : Footprint where
  acts
    | .moveCursor s => s = p ∨ s = n
    | _ => True
  requests
    | .write c => c.key ≠ .provision
    | _ => True

namespace Program

variable {α : Type} {p n : ProvisionState} {l : List Deed}

theorem onEntry_settling (event : ProvisionEvent) :
    (onEntry event n).Within (.settling p n) := by
  apply (onEntry_within event n).mono
  · rintro _ rfl
    trivial
  · intro r hr
    cases r with
    | write c => exact fun h => Key.noConfusion (hr.symm.trans h)
    | _ => trivial
  · exact fun _ _ _ => trivial

theorem critical_settling (config : RecoveryConfig) (cause : String) :
    (critical config cause).Within (.settling p n) := by
  apply (critical_within config cause).mono
  · intro a ha
    cases a <;> trivial
  · intro r hr
    cases r <;> trivial
  · exact fun _ _ _ => trivial

theorem enforce_settling (c : Bool) : (enforce c).Within (.settling p n) := by
  apply (enforce_within c).mono
  · intro a ha
    cases a <;> trivial
  · intro r hr
    cases r <;> trivial
  · exact fun _ _ _ => trivial

def Settles (event : ProvisionEvent) (l : List Deed) : Prop :=
  (∀ d ∈ l, ¬ policy.Owns d) ∨ ∃ p n u k, p.next event = some n ∧
    l = .request .cursor (.ok p) :: .request (.write (.provision n)) (.ok u) :: k ∧
      ∀ d ∈ k, d.Within (.settling p n)

theorem walk_advance {event : ProvisionEvent} {q : Program (ProvisionState × ProvisionState)}
    (h : Walk (advance event) l q) : Settles event l := by
  rcases walk_cursor h with rfl | ⟨e, rfl⟩ | ⟨p, k, rfl, hk⟩
  · exact .inl (by simp)
  · exact .inl (by simp [Owns])
  cases hnext : p.next event with
  | none =>
    rw [hnext] at hk
    have hw : (do
        perform (.count (.rejected event))
        throw (.illegalTransition p event) : Program (ProvisionState × ProvisionState)).Within
          .enforcing :=
      within_bind (within_perform trivial) fun _ => within_done _
    refine .inl (List.forall_mem_cons.mpr ⟨id, fun d hd => ?_⟩)
    exact not_owns_of_enforcing (hw.walk (fun _ _ => trivial) hk d hd)
  | some n =>
    rw [hnext] at hk
    rcases walk_write hk with rfl | ⟨e, rfl⟩ | ⟨u, m, rfl, hm⟩
    · exact .inl (by simp [Owns])
    · exact .inl (by simp [Owns])
    refine .inr ⟨p, n, u, m, hnext, rfl, ?_⟩
    have hw : (do
        onEntry event n
        perform (.moveCursor n)
        perform (.count (.transition event))
        return (p, n)).Within (.settling p n) :=
      within_bind (onEntry_settling event) fun _ =>
        within_bind (within_perform (a := .moveCursor n) (.inr rfl)) fun _ =>
          within_bind (within_perform trivial) fun _ => within_pure _
    exact hw.walk (fun _ _ => trivial) hm

theorem walk_transition {config : RecoveryConfig} {value : Option LockMode}
    {event : ProvisionEvent} {q : Program (Option LockMode × Except Fault ProvisionState)}
    (h : Walk (transition config value event) l q) : Settles event l := by
  rcases walk_transition_stage h with ⟨s, hs⟩ | ⟨p, n, k, m, rfl, hk, hm⟩
  · exact walk_advance hs
  obtain ⟨hnext, u, j, hentry, rfl⟩ := ends_advance_ok hk
  have hj := (onEntry_settling (p := p) (n := n) event).walk (fun _ _ => trivial) hentry
  have hm : ∀ d ∈ m, d.Within (.settling p n) := by
    rcases hm with ⟨s, hs⟩ | ⟨e, a, b, s, ha, rfl, hb⟩
    · exact (enforce_settling false).walk (fun _ _ => trivial) hs
    intro d hd
    rcases List.mem_append.mp hd with hd | hd
    · exact (enforce_settling false).walk (fun _ _ => trivial) ha d hd
    rcases List.mem_cons.mp hd with rfl | hd
    · exact .inl rfl
    · exact (critical_settling config e.message).walk (fun _ _ => trivial) hb d hd
  refine .inr ⟨p, n, u, j ++ [.act (.moveCursor n) (), .act (.count (.transition event)) ()] ++ m,
    hnext, by simp, ?_⟩
  intro d hd
  simp only [List.mem_append, List.mem_cons, List.not_mem_nil, or_false] at hd
  rcases hd with (hd | rfl | rfl) | hd
  · exact hj d hd
  · exact .inr rfl
  · trivial
  · exact hm d hd

end Program

theorem PolicyJob.program_escalating {job : PolicyJob} (config : EngineConfig)
    (enforced : Option LockMode) (hj : ∀ event, job ≠ .transition event) :
    (job.program config enforced).Within .escalating := by
  cases job with
  | enforce => exact within_bind (enforce_within_escalating _) fun _ => within_pure _
  | critical cause => exact within_bind (critical_within _ _) fun _ => within_pure _
  | mode =>
    cases enforced with
    | some m => exact within_pure _
    | none => exact within_bind (enforce_within_escalating _) fun _ => within_pure _
  | invalidate => exact within_pure _
  | transition event => exact absurd rfl (hj event)

theorem Core.Stands.settle {c c' : Core} {p n : ProvisionState} {l : List Deed}
    (h : c.Stands p n ∨ c.Stands n n) (hl : policy.Story c l c')
    (hw : ∀ d ∈ l, d.Within (.settling p n)) : c'.Stands p n ∨ c'.Stands n n := by
  refine Course.keeps (I := fun c => c.Stands p n ∨ c.Stands n n) hl
    (fun _ _ hs => .imp (·.spares hs) (·.spares hs)) ?_ h
  rintro d hd c₁ _ ⟨hfits, rfl⟩ h₁
  have hdw := hw d hd
  have hkeeps (ho : ¬ policy.Owns d) :
      (d.effect c₁).Stands p n ∨ (d.effect c₁).Stands n n :=
    h₁.imp (·.spares (spares_of_not_owns hfits ho)) (·.spares (spares_of_not_owns hfits ho))
  have hstored : c₁.document.provision = n := h₁.elim (·.stored) (·.stored)
  cases d with
  | act a x =>
    cases a with
    | moveCursor s =>
      rcases hdw with rfl | rfl
      · exact .inl ⟨rfl, hstored⟩
      · exact .inr ⟨rfl, hstored⟩
    | _ => exact hkeeps id
  | request r x =>
    cases r with
    | write k =>
      cases x with
      | error f => exact hkeeps id
      | ok u => exact hkeeps hdw
    | _ => exact hkeeps id

namespace Machine

variable {P : Action → Prop} {d : Document} {m₀ b m m' : Machine} {now : Timestamp} {a : Action}
  {l : List Deed} {ps qs : List ProvisionState}

theorem walk_of_opening {event : ProvisionEvent}
    {q : Program (Option LockMode × Except Fault Reply)}
    (h : Walk (b.opening .policy (.transition event)) l q) :
    ∃ q, Walk (transition b.engine.config.recovery b.engine.policy.value event) l q := by
  rcases walk_bind h with ⟨s, hs, -⟩ | ⟨r, k, m, rfl, hk, hm⟩
  · exact ⟨s, hs⟩
  · obtain ⟨rfl, -⟩ := walk_done.mp hm
    rw [List.append_nil]
    exact ⟨_, hk⟩

theorem Span.walk_transition {event : ProvisionEvent}
    (h : Span .policy P b (.transition event) l m) :
    ∃ q, Walk (transition b.engine.config.recovery b.engine.policy.value event) l q := by
  obtain ⟨q, hw⟩ := h.walk
  exact walk_of_opening hw

theorem Span.still {j : PolicyJob} (h : Span .policy P b j l m)
    (hj : ∀ event, j ≠ .transition event) : policy.Spares b.core m.core := by
  obtain ⟨q, hw⟩ := h.walk
  have hwithin : (b.opening .policy j).Within .escalating := PolicyJob.program_escalating _ _ hj
  exact h.story.spares fun d hd =>
    not_owns_of_escalating (hwithin.walk (fun _ _ => trivial) hw d hd)

theorem Span.provision {j : PolicyJob} (h : Span .policy P b j l m) :
    policy.Spares b.core m.core ∨ ∃ event n, b.core.position.next event = some n ∧
      (m.core.Stands b.core.position n ∨ m.core.Stands n n) := by
  by_cases hj : ∃ event, j = .transition event
  · obtain ⟨event, rfl⟩ := hj
    obtain ⟨q, hw⟩ := h.walk_transition
    rcases Program.walk_transition hw with ho | ⟨p, n, u, k, hnext, rfl, hk⟩
    · exact .inl (h.story.spares ho)
    obtain ⟨rfl, c, hc, hstory⟩ := Core.Stands.of_cursor h.story
    obtain ⟨c₁, h₁, hstory⟩ := hc.write hstory
    exact .inr ⟨event, n, hnext, Core.Stands.settle (.inl h₁) hstory hk⟩
  · exact .inl (h.still fun event he => hj ⟨event, he⟩)

theorem Span.succeeds {j : PolicyJob} (h : Span .policy P b j l m) :
    b.core.position.Succeeds m.core.position := by
  rcases h.provision with hs | ⟨event, n, hnext, hs | hs⟩
  · exact .inl hs.1
  · exact .inl hs.position
  · exact .inr ⟨event, hs.position ▸ hnext⟩

theorem Span.stored_succeeds {j : PolicyJob} (h : Span .policy P b j l m)
    (hb : b.core.position.Succeeds b.core.document.provision) :
    b.core.position.Succeeds m.core.document.provision ∧
      m.core.position.Succeeds m.core.document.provision := by
  rcases h.provision with hs | ⟨event, n, hnext, hs | hs⟩
  · rw [hs.1, hs.2.1]
    exact ⟨hb, hb⟩
  · rw [hs.position, hs.stored]
    exact ⟨.inr ⟨event, hnext⟩, .inr ⟨event, hnext⟩⟩
  · rw [hs.position, hs.stored]
    exact ⟨.inr ⟨event, hnext⟩, .inl rfl⟩

/-- The cursor whenever no policy job runs. One that is not loaded stands at the stored state. -/
def boundaries : Companion (List ProvisionState) := fun ps _ _ _ m qs =>
  (m.Idle .policy → qs = ps ++ [m.core.position]) ∧ (¬ m.Idle .policy → qs = ps)

theorem exists_boundaries (h : Reaches P m₀ m) (ps : List ProvisionState) :
    ∃ qs, ReachesWith boundaries m₀ ps m qs := by
  induction h with
  | refl => exact ⟨ps, .refl⟩
  | step h ha hs ih =>
    rename_i m m' now a
    obtain ⟨qs, hqs⟩ := ih
    by_cases hidle : m'.Idle .policy
    · exact ⟨_, hqs.step hs ⟨fun _ => rfl, fun hbusy => absurd hidle hbusy⟩⟩
    · exact ⟨_, hqs.step hs ⟨fun hidle' => absurd hidle' hidle, fun _ => rfl⟩⟩

structure Trail (m : Machine) (ps : List ProvisionState) : Prop where
  near : m.core.position.Succeeds m.core.document.provision
  chain : ps.IsChain ProvisionState.Succeeds
  last : ps.getLast? = some m.core.position

theorem Trail.next (h : m.Trail ps) (hs : m.core.position.Succeeds m'.core.position)
    (hnear : m'.core.position.Succeeds m'.core.document.provision) :
    m'.Trail (ps ++ [m'.core.position]) where
  near := hnear
  chain := h.chain.append (.singleton _) fun p hp q hq => by
    rw [h.last] at hp
    obtain rfl := Option.some.inj hp
    obtain rfl := Option.some.inj hq
    exact hs
  last := by simp

theorem Trail.beside (h : m.Trail ps) (hm : m.Follows .usual) (hs : m.step? now a = some m')
    (ha : a.lane? ≠ some .policy) (hr : a ≠ .restart) : m'.Trail (ps ++ [m'.core.position]) := by
  have hspares := beside_spares hm hs ha hr
  refine h.next (.inl hspares.1) ?_
  rw [hspares.1, hspares.2.1]
  exact h.near

theorem Trail.job {j : PolicyJob} (h : b.Trail ps) (hs : Span .policy P b j l m) :
    m.Trail (ps ++ [m.core.position]) :=
  h.next hs.succeeds (hs.stored_succeeds h.near).2

theorem WorksWith.trail (h : WorksWith .policy boundaries b ps l m qs) (hb : b.Follows .usual)
    (htrail : b.Trail ps) : (m.Idle .policy → m.Trail qs) ∧ (¬ m.Idle .policy → qs = ps) := by
  induction h with
  | @start now m qs hs hx =>
    obtain ⟨j, -, hspan⟩ := (Works.start (P := fun _ => True) trivial hs).span hb
    refine ⟨fun hidle => ?_, hx.2⟩
    rw [hx.1 hidle]
    exact htrail.job hspan
  | @own now l m m' qs qs' c hw hs hx ih =>
    obtain ⟨j, -, hspan⟩ := (hw.any.own trivial hs).span hb
    have hbusy : ¬ m.Idle .policy := by
      obtain ⟨p, -, hp, -⟩ := resume_queue hs
      exact not_idle_of_running hp
    have hsame := ih.2 hbusy
    refine ⟨fun hidle => ?_, fun hbusy' => (hx.2 hbusy').trans hsame⟩
    rw [hx.1 hidle, hsame]
    exact htrail.job hspan
  | @beside now l m m' qs qs' a hw ha hr hs hx ih =>
    have hiff := idle_iff_of_beside hs ha hr
    refine ⟨fun hidle => ?_, fun hbusy => ?_⟩
    · rw [hx.1 hidle]
      exact (ih.1 (hiff.mp hidle)).beside (hw.any.usual hb) hs ha hr
    · exact (hx.2 hbusy).trans (ih.2 fun hidle => hbusy (hiff.mpr hidle))

theorem Fresh.trail (h : Fresh d m) : m.Idle .policy ∧ m.Trail [m.core.position] := by
  have hcursor : m.engine.cursor = none := by rw [h.engine.1]
  refine ⟨h.idle _, .inl ?_, .singleton _, rfl⟩
  simp [Machine.core, Core.position, hcursor]

theorem Trail.restart (h : m.Trail ps)
    (hs : m.core.position.Succeeds m'.core.document.provision) :
    Trail { m' with engine := m'.engine.renewed } (ps ++ [m'.core.document.provision]) := by
  have hposition : (core { m' with engine := m'.engine.renewed }).position =
      m'.core.document.provision := rfl
  rw [← hposition] at hs ⊢
  exact h.next hs (.inl rfl)

theorem trail_between (hf : Fresh d m₀)
    (h : ReachesWith boundaries m₀ [m₀.core.position] m ps) :
    Between .policy boundaries m₀ [m₀.core.position] Trail m ps := by
  have husual {m : Machine} {ps : List ProvisionState}
      (h : ReachesWith boundaries m₀ [m₀.core.position] m ps) : m.Follows .usual :=
    h.any.usual (hf.follows _)
  apply h.between hf.trail
  · intro m qs now m' qs' hm hcases hs hx
    obtain rfl := restart_cases hs
    rw [hx.1 rfl]
    rcases hcases with ⟨-, htrail⟩ | ⟨hbusy, b, rs, l, hb, -, htrail, hw⟩
    · exact htrail.restart htrail.near
    · -- The job that is cut short has left the stored state one row from the cursor before it.
      obtain ⟨j, -, hspan⟩ := hw.any.span (husual hb)
      rw [(hw.trail (husual hb) htrail).2 hbusy]
      exact htrail.restart (hspan.stored_succeeds htrail.near).1
  · intro m qs now a m' qs' hm hidle htrail ha hr hs hx
    rw [hx.1 ((idle_iff_of_beside hs ha hr).mpr hidle)]
    exact htrail.beside (husual hm) hs ha hr
  · exact fun b qs l m rs hb _ htrail hw hidle => (hw.trail (husual hb) htrail).1 hidle

theorem near_and_chain (hf : Fresh d m₀)
    (h : ReachesWith boundaries m₀ [m₀.core.position] m ps) :
    m.core.position.Succeeds m.core.document.provision ∧
      ps.IsChain ProvisionState.Succeeds := by
  rcases trail_between hf h with ⟨-, htrail⟩ | ⟨hbusy, b, qs, l, hb, -, htrail, hw⟩
  · exact ⟨htrail.near, htrail.chain⟩
  · have hb := hb.any.usual (hf.follows _)
    obtain ⟨j, -, hspan⟩ := hw.any.span hb
    rw [(hw.trail hb htrail).2 hbusy]
    exact ⟨(hspan.stored_succeeds htrail.near).2, htrail.chain⟩

theorem Reachable.near (h : m.Reachable) :
    m.core.position.Succeeds m.core.document.provision := by
  obtain ⟨d, m₀, hf, hr⟩ := h
  obtain ⟨ps, hps⟩ := exists_boundaries hr [m₀.core.position]
  exact (near_and_chain hf hps).1

/-- The stored state is never further from the cursor than one row of the table, and neither are
two cursors at successive boundaries, whatever fails or panics and whenever the engine restarts. A
kiosk is kept. -/
theorem provision_trail (hf : Fresh d m₀)
    (h : ReachesWith boundaries m₀ [m₀.core.position] m ps) :
    m.core.position.Succeeds m.core.document.provision ∧
      ps.IsChain ProvisionState.Succeeds ∧
        ps.Pairwise fun p q => p.hasKiosk = true → q.hasKiosk = true := by
  obtain ⟨hnear, hchain⟩ := near_and_chain hf h
  let R (p q : ProvisionState) : Prop := p.hasKiosk = true → q.hasKiosk = true
  have : Trans R R R := ⟨fun h h' => h' ∘ h⟩
  have hkiosk : ps.IsChain R := hchain.imp fun _ _ => ProvisionState.Succeeds.hasKiosk
  exact ⟨hnear, hchain, List.isChain_iff_pairwise.mp hkiosk⟩

def cutShort : List Action :=
  [Action.call (.event .ready), .start .policy] ++ Action.goesOn .policy 3 ++
    [Action.restart, .call (.event .kiosk), .start .policy] ++ Action.goesOn .policy 4 ++
      [Action.callbackEnds 0 0 (.returned false)] ++ Action.goesOn .policy 3 ++
        [Action.callbackEnds 1 0 (.panicked none)] ++ Action.goesOn .policy 3

theorem provision_trail_cutShort :
    ∃ m ps, ReachesWith boundaries (plain ["restrictions"]) [.unprovisioned] m ps ∧
      m.Idle .policy ∧ m.core.position = .inProgress ∧
        m.core.document.provision = .kioskProvisioned ∧
          m.core.position.Succeeds m.core.document.provision ∧
            ps.IsChain ProvisionState.Succeeds := by
  have hrun : ((plain ["restrictions"]).run? epoch cutShort).any (fun m =>
      m.engine.policy.running.isNone && decide (m.core.position = .inProgress) &&
        decide (m.core.document.provision = .kioskProvisioned)) = true := rfl
  obtain ⟨m, hm, hp⟩ := (Option.any_eq_true _ _).mp hrun
  simp only [Bool.and_eq_true, decide_eq_true_eq, Option.isNone_iff_eq_none] at hp
  obtain ⟨⟨hidle, hposition⟩, hstored⟩ := hp
  have hreaches : Reaches (fun _ => True) (plain ["restrictions"]) m :=
    (Reaches.refl _).run (fun _ _ => trivial) hm
  obtain ⟨ps, hps⟩ := exists_boundaries hreaches [.unprovisioned]
  obtain ⟨hnear, hchain, -⟩ := provision_trail (plain_fresh _) hps
  exact ⟨m, ps, hps, hidle, hposition, hstored, hnear, hchain⟩

end Machine

end DeviceLock
