import DeviceLock.Proofs.Engine.TransitionProtocol
import DeviceLock.Proofs.Program.CriticalPath

namespace DeviceLock

open Program Lane

inductive CriticalEnd
  | entered
  | gaveUp

def Ending.isCritical (e : Ending (Option LockMode) (Except Fault Reply) Fault) : Bool :=
  match e.answer.flatten with
  | .error (.critical _) => true
  | _ => false

namespace CriticalEnd

/-- What each way means for the deeds of the critical path, and for the job that runs it. -/
def Describes (b : Machine) (cause : String) (k : List Deed) (m : Machine) : CriticalEnd → Prop
  | entered =>
    ∃ i e, k = i ++ [.request (.call (.reset cause)) (.ok ()),
        .request (.call (.reportCritical cause)) (.ok ())] ∧
      Enforces b.core.position .criticalError i ∧
      m.engine.policy.ended = b.engine.policy.ended ++ [e] ∧
      (∀ reason, e.answer.flatten ≠ .error (.critical reason)) ∧
      m.engine.policy.value = some .criticalError
  | gaveUp =>
    ∃ i f x y e, k = i ++ [.act (.count .criticalFailure) (),
        .request (.call (.alarm .criticalEnforcementRetry
          b.engine.config.recovery.criticalRetry)) x,
        .request (.call (.terminate (criticalReason cause f))) y] ∧
      Falters cause b.core.position i f ∧
      m.engine.policy.ended = b.engine.policy.ended ++ [e] ∧
      e.answer.flatten = .error (.critical (criticalReason cause f)) ∧
      m.engine.policy.value = b.engine.policy.value

variable {P : Action → Prop} {b m : Machine} {cause : String} {j k l : List Deed}

theorem Describes.unique {x y : CriticalEnd} (hx : x.Describes b cause k m)
    (hy : y.Describes b cause k m) : x = y := by
  have hapart (i i' : List Deed) (f : Fault) (x y)
      (h : i ++ [.request (.call (.reset cause)) (.ok ()),
      .request (.call (.reportCritical cause)) (.ok ())] = i' ++ [.act (.count .criticalFailure) (),
        .request (.call (.alarm .criticalEnforcementRetry
          b.engine.config.recovery.criticalRetry)) x,
        .request (.call (.terminate (criticalReason cause f))) y]) : False := by
    have := congrArg List.reverse h
    simp at this
  cases x <;> cases y
  · rfl
  · obtain ⟨i, e, rfl, -⟩ := hx
    obtain ⟨i', f, x, y, e', h, -⟩ := hy
    exact (hapart _ _ _ _ _ h).elim
  · obtain ⟨i', f, x, y, e', rfl, -⟩ := hx
    obtain ⟨i, e, h, -⟩ := hy
    exact (hapart _ _ _ _ _ h.symm).elim
  · rfl

variable {c : Core} {e : Ending (Option LockMode) (Except Fault Reply) Fault}
  {r : Except Fault LockMode}

end CriticalEnd

namespace Machine

variable {P : Action → Prop} {b m m₁ m' : Machine} {now : Timestamp} {a : Action} {l : List Deed}

theorem respond_trace {c : Conduct} {r : Request} {x : r.Answer}
    (h : m.respond c r = (m', .answer x)) :
    m'.world.trace = (Deed.request r x).event?.toList ++ m.world.trace := by
  cases responds h <;> rfl

theorem Does.trace {d : Deed} (h : Does m d m') :
    m'.world.trace = d.event?.toList ++ m.world.trace := by
  cases h with
  | act now a =>
    cases a with
    | submit j => cases j <;> rfl
    | _ => rfl
  | request h => exact respond_trace h

theorem Plays.trace (h : Plays m l m') :
    m'.world.trace = (l.filterMap Deed.event?).reverse ++ m.world.trace := by
  induction h with
  | nil m => rfl
  | @cons m m₁ m' d l hd _ ih =>
    rw [ih, hd.trace, List.filterMap_cons]
    cases d.event? <;> simp

theorem step_trace (h : m.step? now a = some m') (ha : a.Orderly) :
    m'.world.trace = ((m.log now a).filterMap Deed.event?).reverse ++ m.world.trace := by
  have hr : a ≠ .restart := fun hr => by rw [hr] at ha; exact ha
  cases step_cases h hr with
  | plays hplays hn => rw [hn.world, hplays.trace]
  | panics he hp =>
    subst he
    exact absurd ha hp
  | callbackEnds he _ hm =>
    subst he hm
    rfl
  | activation he _ hm =>
    subst he hm
    rfl

def escalations (m : Machine) : List Escalation :=
  (m.world.trace.filterMap Event.escalation?).reverse

theorem step_escalations (h : m.step? now a = some m') (ha : a.Orderly) :
    m'.escalations = m.escalations ++ (m.log now a).filterMap Deed.escalation? := by
  have hsame : (m.log now a).filterMap Deed.escalation? =
      ((m.log now a).filterMap Deed.event?).filterMap Event.escalation? := by
    rw [List.filterMap_filterMap]
    rfl
  rw [escalations, step_trace h ha, hsame, List.filterMap_append, List.reverse_append,
    List.filterMap_reverse, List.reverse_reverse]
  rfl

theorem beside_escalations (hm : m.Follows .usual) (h : m.step? now a = some m') (ha : a.Orderly)
    (hl : a.lane? ≠ some .policy) : m'.escalations = m.escalations := by
  have hnone : (m.log now a).filterMap Deed.escalation? = [] := by
    apply List.filterMap_eq_nil_iff.mpr
    intro d hd
    have hw := (hm.step h (admits_usual m now a)).1 d hd
    unfold Regime.of at hw
    split at hw
    · rename_i other ho
      exact Deed.escalation?_of_unescalated (Deed.unescalated_of_lane (fun he => hl (he ▸ ho)) hw)
    · exact Deed.escalation?_of_unescalated (Deed.unescalated_of_caller hw)
  rw [step_escalations h ha, hnone, List.append_nil]

theorem Works.escalations (h : Works .policy P b l m) (hb : b.Follows .usual)
    (hP : ∀ a, P a → a.Orderly) :
    m.escalations = b.escalations ++ l.filterMap Deed.escalation? := by
  induction h with
  | start hp hs => exact step_escalations hs (hP _ hp)
  | own hw hp hs ih =>
    rw [step_escalations hs (hP _ hp), ih, List.filterMap_append, List.append_assoc]
  | beside hw hp ha _ hs ih =>
    rw [beside_escalations (hw.usual hb) hs (hP _ hp) ha, ih]

structure Accounted (b m : Machine)
    (es : List (Ending (Option LockMode) (Except Fault Reply) Fault)) : Prop where
  config : m.engine.config = b.engine.config
  ended : m.engine.policy.ended = b.engine.policy.ended ++ es
  escalations : m.escalations = b.escalations ++
    es.flatMap fun e => b.engine.config.recovery.escalationsOf e.answer.flatten

theorem countP_escalationsOf {f : Escalation → Bool} {config : RecoveryConfig}
    (e : Ending (Option LockMode) (Except Fault Reply) Fault)
    (hf : ∀ reason, (config.escalations (.critical reason)).countP f = 1) :
    (config.escalationsOf e.answer.flatten).countP f = if e.isCritical then 1 else 0 := by
  unfold Ending.isCritical
  split
  · rename_i reason h
    rw [h]
    exact hf reason
  · rename_i hn
    cases hx : e.answer.flatten with
    | ok a => rfl
    | error g =>
      cases g with
      | critical reason => exact absurd hx (hn reason)
      | _ => rfl

theorem Accounted.count {f : Escalation → Bool}
    {es : List (Ending (Option LockMode) (Except Fault Reply) Fault)} (h : b.Accounted m es)
    (hf : ∀ reason, (b.engine.config.recovery.escalations (.critical reason)).countP f = 1) :
    m.escalations.countP f = b.escalations.countP f + es.countP Ending.isCritical := by
  rw [h.escalations, List.countP_append]
  congr 1
  clear h
  induction es with
  | nil => rfl
  | cons e es ih =>
    rw [List.flatMap_cons, List.countP_append, ih, countP_escalationsOf e hf, List.countP_cons,
      Nat.add_comm]

variable {C : Conduct → Prop} {job : PolicyJob} {cause : String} {k : List Deed}
  {e : Ending (Option LockMode) (Except Fault Reply) Fault}

def unread : List Action :=
  .resume (.job .policy) {} :: .resume (.job .policy) { store := .refused .io } ::
    Action.goesOn .policy 2

end Machine

end DeviceLock
