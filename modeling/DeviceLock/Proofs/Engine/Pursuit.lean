import DeviceLock.Proofs.Engine.Expense
import DeviceLock.Proofs.Engine.FanOut
import DeviceLock.Proofs.Engine.PassExclusion
import DeviceLock.Proofs.Engine.Service
import DeviceLock.Proofs.Engine.Setting
import DeviceLock.Proofs.Engine.Solitude

namespace DeviceLock

open Program

namespace Action

structure Suits (S : Setting) (m : Machine) (a : Action) : Prop where
  willing : a.Willing
  answers : ∀ τ c q, a = .resume τ c → m.asked? a = some (.ask q) → c.answer = some (S.answer q)

end Action

def Request.leaves : Request → Document → Document
  | write c => c.apply
  | _ => id

namespace Machine

variable {S : Setting} {m m₁ m' : Machine} {now : Timestamp} {a : Action} {i n : Nat}
  {K : Except Fault Reply → Bench → Prop}

theorem deeds_perform {α : Type} {p : Program α} {b : Act} {x : b.Answer}
    (h : .act b x ∈ m.deeds now p) : ∃ m₁ : Machine, x = (m₁.perform now b).2 := by
  induction p generalizing m with
  | done r => simp [deeds] at h
  | wait r next => simp [deeds] at h
  | act c next ih =>
    rcases List.mem_cons.mp h with h | h
    · cases h
      exact ⟨m, rfl⟩
    · exact ih _ h

theorem answered_perform {α : Type} {c : Conduct} {p : Program α} {b : Act} {x : b.Answer}
    (h : .act b x ∈ m.answered now c p) : ∃ m₁ : Machine, x = (m₁.perform now b).2 := by
  cases p with
  | done r => simp [answered] at h
  | act a next => simp [answered] at h
  | wait r next =>
    simp only [answered] at h
    split at h
    · rcases List.mem_cons.mp h with h | h
      · cases h
      · exact deeds_perform h
    · cases h
    · cases h

theorem log_perform {b : Act} {x : b.Answer} (h : .act b x ∈ m.log now a) :
    ∃ m₁ : Machine, x = (m₁.perform now b).2 := by
  cases a with
  | call op => exact deeds_perform h
  | start lane =>
    simp only [log] at h
    split at h
    · exact deeds_perform h
    · cases h
  | resume τ c =>
    cases τ with
    | job lane =>
      simp only [log] at h
      split at h
      · exact answered_perform h
      · cases h
    | client i =>
      simp only [log] at h
      split at h
      · exact answered_perform h
      · cases h
  | _ => cases h

theorem log_expected (hm : m.Applied) (ha : a.Suits S m) : ∀ d ∈ m.log S.wall a, d.Expected S := by
  intro d hd
  have hserved := log_served hm ha.willing d hd
  cases d with
  | act b x =>
    cases b with
    | now =>
      obtain ⟨m₁, rfl⟩ := log_perform hd
      rfl
    | _ => exact hserved
  | request r x =>
    cases r with
    | ask q =>
      obtain ⟨τ, c, m₁, rfl, hx⟩ := log_respond hd
      have hanswer := ha.answers τ c q rfl (asked_of_log hd)
      cases responds hx with
      | told hb => exact Option.some.inj (hb.symm.trans hanswer)
    | _ => exact hserved

structure Sound (m : Machine) : Prop where
  ordered : m.Ordered
  informed : m.Informed
  usual : m.Follows .usual
  applied : m.Applied

theorem Sound.step (h : m.Sound) (hs : m.step? now a = some m') (ha : a.Willing) : m'.Sound where
  ordered := h.ordered.step hs
  informed := h.informed.step h.usual hs
  usual := (h.usual.step hs (admits_usual _ _ _)).2
  applied := by
    refine h.applied.step hs (fun pass capability result he => ?_) fun he => ?_
    · subst he
      exact ha
    · subst he
      exact ha

/-- The client is bound to what is to hold, and so many steps are enough for what is under way. -/
structure Pursues (S : Setting) (i : Nat) (K : Except Fault Reply → Bench → Prop) (n : Nat)
    (m : Machine) : Prop where
  sound : m.Sound
  bound : Bound (Deed.Expected S) m i K
  affords : m.Affords n

theorem Pursues.works (h : m.Pursues S i K n) (hs : m.step? S.wall a = some m')
    (ha : a.Suits S m) (ht : a.task?.isSome) :
    (∃ k < n, m'.Pursues S i K k) ∧
      ∀ reason x, .request (.call (.terminate reason)) x ∉ m.log S.wall a := by
  have hlog := log_expected h.sound.applied ha
  have hsound := h.sound.step hs ha.willing
  cases a with
  | start lane =>
    have hbound := h.bound.step h.sound.ordered hs trivial hlog
    obtain ⟨k, hk, haffords⟩ := h.affords.start h.sound.ordered hs
    refine ⟨⟨k, hk, hsound, hbound, haffords⟩, fun reason x hx => ?_⟩
    obtain ⟨_, _, _, hstart, -⟩ := log_respond hx
    cases hstart
  | resume τ c =>
    have hcalm : c.Calm := Conduct.Willing.calm ha.willing
    have hbound := h.bound.step h.sound.ordered hs hcalm hlog
    obtain ⟨⟨k, hk, haffords⟩, hcalls⟩ := h.affords.resume h.sound.ordered hs hcalm
      (log_served h.sound.applied ha.willing)
    exact ⟨⟨k, hk, hsound, hbound, haffords⟩, hcalls⟩
  | _ => cases ht

theorem Pursues.callbackEnds {pass capability : Nat} (h : m.Pursues S i K n)
    (hs : m.step? now (.callbackEnds pass capability (.returned true)) = some m') :
    m'.Pursues S i K n where
  sound := h.sound.step hs rfl
  bound := h.bound.step h.sound.ordered hs trivial (by simp [log])
  affords := h.affords.callbackEnds hs

theorem Pursues.activation {t : TaskStep} (h : m.Pursues S i K n)
    (hs : m.step? now (.activation t) = some m') :
    ∃ k ≤ n, m'.Pursues S i K k ∧ (t = .start → k < n) := by
  obtain ⟨k, hk, haffords, hstart⟩ := h.affords.activation hs
  exact ⟨k, hk, ⟨h.sound.step hs trivial,
    h.bound.step h.sound.ordered hs trivial (by simp [log]), haffords⟩, hstart⟩

theorem Pursues.answered (h : m.Pursues S i K n) (hready : ¬ m.Ready) :
    m.Quiescent ∧ ∃ x, m.engine.clients[i]? = some (.answered x) ∧ K x m.bench := by
  have hq := (h.sound.informed.ready_or_quiescent h.sound.usual h.sound.ordered).resolve_left hready
  obtain ⟨x, hx, hK, -⟩ := h.bound.answered (hq.rests (.client i) (by simp))
  exact ⟨hq, x, hx, hK⟩

theorem Pursues.of_call {op : Operation} (hm : m.Sound) (hq : m.Quiescent)
    (hs : m.step? S.wall (.call op) = some m')
    (hK : (op.program m.engine.config).Leads (Deed.Expected S) m.bench K) :
    m'.Pursues S m.engine.clients.length K 36 := by
  have hlog := log_expected (S := S) hm.applied (a := .call op) ⟨trivial, by simp⟩
  obtain rfl := call_cases hs
  refine ⟨hm.step hs trivial, (launch_fares hq hm.ordered hs hK hlog).bound, ?_⟩
  exact (hq.affords hm.ordered).launch hm.ordered (Operation.program_costs _ op)

section Passes

def Open (m : Machine) (pass capability : Nat) : Prop :=
  ∃ p, m.engine.passes[pass]? = some p ∧ p.ends[capability]? = some none

def CallbacksEnded (m : Machine) : Prop := ∀ pass capability, ¬ m.Open pass capability

variable {pass capability q j : Nat}

theorem Applied.lt_of_open (hm : m.Applied) (h : m.Open pass capability) :
    capability < m.engine.capabilities.length := by
  obtain ⟨p, hp, hends⟩ := h
  rw [← (hm p (List.mem_of_getElem? hp)).1]
  exact (List.getElem?_eq_some_iff.mp hends).1

theorem Open.ends (h : m.Open pass capability) (now : Timestamp) (result : CallbackEnd) :
    ∃ m', m.step? now (.callbackEnds pass capability result) = some m' := by
  obtain ⟨p, hp, hends⟩ := h
  simp [step?, endCallback?, hp, hends]

theorem Open.of_callbackEnds {result : CallbackEnd} (h : m'.Open q j)
    (hs : m.step? now (.callbackEnds pass capability result) = some m') :
    m.Open q j ∧ (q, j) ≠ (pass, capability) := by
  obtain ⟨p, hp, hk, hpasses⟩ := end_of_step hs
  obtain ⟨r, hr, hends⟩ := h
  rw [hpasses] at hr
  by_cases hq : q = pass
  · subst hq
    rw [List.getElem?_set_self (List.getElem?_eq_some_iff.mp hp).1] at hr
    obtain rfl := Option.some.inj hr
    by_cases hj : j = capability
    · subst hj
      rw [List.getElem?_set_self (List.getElem?_eq_some_iff.mp hk).1] at hends
      cases hends
    · rw [List.getElem?_set_ne (Ne.symm hj)] at hends
      exact ⟨⟨p, hp, hends⟩, by simp [hj]⟩
  · rw [List.getElem?_set_ne (Ne.symm hq)] at hr
    exact ⟨⟨r, hr, hends⟩, by simp [hq]⟩

theorem Open.of_step (h : m'.Open q j) (hs : m.step? now a = some m') (ha : a.Orderly)
    (hends : ∀ n k result, a ≠ .callbackEnds n k result) :
    m.Open q j ∨ ∃ e ∈ (m.log now a).filterMap Deed.event?, e.pass? = some q := by
  have hr : a ≠ .restart := by
    rintro rfl
    exact ha
  obtain ⟨p, hp, hopen⟩ := h
  cases hold : m.engine.passes[q]? with
  | none =>
    have hissued := (step_issues hs hr).new q p hp hold
    exact .inr ⟨_, List.mem_filterMap.mpr ⟨_, hissued, rfl⟩, rfl⟩
  | some p₀ =>
    obtain ⟨later, hlater⟩ := passes_of_step hs hr hends
    have hlt := (List.getElem?_eq_some_iff.mp hold).1
    refine .inl ⟨p, ?_, hopen⟩
    rwa [← hlater, List.getElem?_append_left hlt] at hp

end Passes

section Document

theorem advance_document {α : Type} (m : Machine) (now : Timestamp) (p : Program α) :
    (m.advance now p).1.world.document = m.world.document := by
  induction p generalizing m with
  | done r => rfl
  | wait r next => rfl
  | act a next ih =>
    refine (ih _ _).trans ?_
    cases a with
    | submit j => cases j <;> rfl
    | _ => rfl

theorem respond_document {c : Conduct} {r : Request} {x : Response r.Answer}
    (h : m.respond c r = (m', x)) (hc : c.Willing) :
    m'.world.document = r.leaves m.world.document := by
  cases responds h with
  | unwritten hf | writePanics hf => cases hc.store.symm.trans hf
  | _ => rfl

theorem start_document {lane : Lane} (hs : m.step? now (.start lane) = some m') :
    m'.world.document = m.world.document := by
  obtain ⟨w, -, rfl⟩ := start_cases hs
  exact advance_document m now _

theorem resume_document {τ : Task} {c : Conduct} {r : Request}
    (hs : m.step? now (.resume τ c) = some m') (hc : c.Willing)
    (hr : m.asked? (.resume τ c) = some r) : m'.world.document = r.leaves m.world.document := by
  obtain ⟨q, next, x, m₂, -, hq, hlog, hn⟩ := resume_goes hs hc.calm
  have hasked : m.asked? (.resume τ c) = some q := asked_of_log (hlog ▸ List.mem_cons_self)
  obtain rfl := Option.some.inj (hr.symm.trans hasked)
  rw [← respond_document hq hc, ← advance_document m₂ now (next x)]
  exact congrArg Core.document hn.core

end Document

end Machine

end DeviceLock
