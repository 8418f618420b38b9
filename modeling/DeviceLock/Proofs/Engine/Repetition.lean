import DeviceLock.Proofs.Engine.DeadlockFreedom
import DeviceLock.Proofs.Engine.Outcome
import DeviceLock.Proofs.Engine.Renewal

namespace DeviceLock

open Program

namespace Machine

variable {P : Action → Prop} {b m m' : Machine} {op : Operation} {a : Aim}
  {x : Except Fault Reply}

inductive Attempts (op : Operation) (b : Machine) : Machine → Prop
  | none : Attempts op b b
  | again {m m' : Machine} {e : Fault} (h : Attempts op b m)
      (hm : Performs (fun _ => True) m op (.error e) m') : Attempts op b m'

theorem Performs.attempted {e : Fault} (h : Performs (fun _ => True) b op (.error e) m)
    (hb : b.Reachable) (hq : b.Quiescent) (ha : op.Aims b.engine.config.device b.core a) :
    m.Quiescent ∧ ∃ a', op.Aims m.engine.config.device m.core a' ∧ a'.Alike a := by
  obtain ⟨⟨l, hl, hx⟩, hq'⟩ := h.executes (D := fun _ => True) hb hq trivial
    fun _ _ _ _ _ _ _ _ _ => trivial
  have hconfig : m.engine.config = b.engine.config := hx.config
  rw [hconfig]
  refine ⟨hq', ?_⟩
  cases ha.outcome (s := b.bench) hl hx with
  | reached h => cases h.answer
  | failed h => exact h.aims ha

theorem Attempts.attempted (h : Attempts op b m) (hb : b.Reachable) (hq : b.Quiescent)
    (ha : op.Aims b.engine.config.device b.core a) :
    m.Reachable ∧ m.Quiescent ∧ ∃ a', op.Aims m.engine.config.device m.core a' ∧ a'.Alike a := by
  induction h with
  | none => exact ⟨hb, hq, a, ha, .refl a⟩
  | again _ hm ih =>
    obtain ⟨hreachable, hquiescent, a', ha', halike⟩ := ih
    obtain ⟨hq', a'', ha'', halike'⟩ := hm.attempted hreachable hquiescent ha'
    exact ⟨hreachable.trans (hm.reaches trivial), hq', a'', ha'', halike'.trans halike⟩

theorem Performs.reached (h : Performs Action.Willing b op x m) (hb : b.Reachable)
    (hq : b.Quiescent) (ha : op.Aims b.engine.config.device b.core a) : a.Reached x m.bench := by
  obtain ⟨⟨l, hl, hx⟩, -⟩ := h.served hb hq
  cases ha.outcome (s := b.bench) hl hx with
  | reached h => exact h
  | failed _ hserved => exact absurd (fun _ => id) hserved

theorem Reachable.performs {m₁ : Machine} {now : Timestamp} (hb : b.Reachable) (hq : b.Quiescent)
    (hs : b.step? now (.call op) = some m₁)
    (hr : Reaches (fun a => a.Willing ∧ a.Undisturbed) m₁ m) :
    Inevitable (fun m' => ∃ x, Performs Action.Willing b op x m') m := by
  have hm₁ : m₁.Reachable := hb.trans (P := fun _ => True) (.step (.refl b) trivial hs)
  refine (hm₁.trans hr).comes_to_rest fun m' hr' hq' => ?_
  have hreaches : Reaches (fun a => a.Willing ∧ a.Undisturbed) m₁ m' :=
    hr.trans (hr'.mono fun _ ha => ⟨ha.willing, ha.undisturbed⟩)
  have hbound := bound_of_reaches (D := fun _ => True) (K := fun _ _ => True) hb hq hs hreaches
    trivial (fun _ _ _ _ _ _ _ _ _ => trivial) fun _ _ _ _ _ => trivial
  obtain ⟨x, hx, -⟩ := hbound.answered (hq'.rests (.client _) (by simp))
  exact ⟨x, ⟨now, m₁, hs, hreaches⟩, hx⟩

/-- Failed attempts of an operation leave it as it was: repeated with collaborators that do as they
are asked, it is answered, and comes to what it would have come to at once. -/
theorem failed_attempts_repeatable (hb : b.Reachable) (hq : b.Quiescent)
    (hop : op.Admitted b.engine.config.device b.core) (hm : Attempts op b m) :
    (∀ now, ∃ m₁, m.step? now (.call op) = some m₁ ∧
      ∀ m₂, Reaches (fun a => a.Willing ∧ a.Undisturbed) m₁ m₂ →
        Inevitable (fun m' => ∃ x, Performs Action.Willing m op x m') m₂) ∧
    ∀ x m₁ y m₂, Performs Action.Willing m op x m₁ → Performs Action.Willing b op y m₂ →
      ∃ reply, x = .ok reply ∧ y = .ok reply ∧
        (∀ key, key ≠ .startTime → m₁.world.document.Agree m₂.world.document key) ∧
        m₁.engine.cursor = m₂.engine.cursor ∧ m₁.engine.policy.value = m₂.engine.policy.value := by
  obtain ⟨a, ha⟩ := hop
  obtain ⟨hreachable, hquiescent, a', ha', halike⟩ := hm.attempted hb hq ha
  refine ⟨fun now => ⟨_, rfl, fun m₂ hr => hreachable.performs hquiescent rfl hr⟩, ?_⟩
  intro x m₁ y m₂ hx hy
  have hrepeated := (hx.reached hreachable hquiescent ha').alike halike
  have honce := hy.reached hb hq ha
  exact ⟨a.reply, hrepeated.answer, honce.answer,
    fun key ht => (hrepeated.stored key ht).trans (honce.stored key ht).symm,
    hrepeated.cursor.trans honce.cursor.symm, hrepeated.mode.trans honce.mode.symm⟩

def untoldSuccess : List Action :=
  [Action.start .requests] ++ Action.goesOn .requests 3 ++ [Action.start .policy] ++
    Action.goesOn .policy 2 ++ [Action.callbackEnds 0 0 (.returned true)] ++
      Action.goesOn .policy 2 ++ Action.goesOn .requests 1 ++ [Action.start .policy] ++
        Action.goesOn .policy 2 ++ [Action.resume (.job .policy) { call := .refused "busy" }] ++
          Action.goesOn .requests 1 ++ [Action.resume (.client 0) {}]

theorem exists_failed_lock :
    ∃ m, Performs (fun _ => True) kiosk (.request .lock)
        (.error (.platform .notifySucceeded "busy")) m ∧
      m.engine.cursor = some .kioskProvisioned ∧ m.world.document.provision = .succeeded ∧
        m.world.document.device = .locked := by
  have hrun : ∃ m, kiosk.run? epoch (.call (.request .lock) :: untoldSuccess) = some m ∧
      kiosk.caller m = some (.answered (.error (.platform .notifySucceeded "busy"))) ∧
        m.engine.cursor = some .kioskProvisioned ∧ m.world.document.provision = .succeeded ∧
          m.world.document.device = .locked := ⟨_, rfl, rfl, rfl, rfl, rfl⟩
  obtain ⟨m, hr, hx, hm⟩ := hrun
  exact ⟨m, .of_run hr (by decide) hx, hm⟩

theorem failed_lock_repeatable :
    ∃ m x m₁ y m₂, Attempts (.request .lock) kiosk m ∧
      m.engine.cursor = some .kioskProvisioned ∧ m.world.document.provision = .succeeded ∧
      Performs Action.Willing m (.request .lock) x m₁ ∧
      Performs Action.Willing kiosk (.request .lock) y m₂ ∧
        ∃ reply, x = .ok reply ∧ y = .ok reply ∧
          (∀ key, key ≠ .startTime → m₁.world.document.Agree m₂.world.document key) ∧
          m₁.engine.cursor = m₂.engine.cursor ∧
            m₁.engine.policy.value = m₂.engine.policy.value := by
  obtain ⟨m, hm, hcursor, hprovision, -⟩ := exists_failed_lock
  have hb : kiosk.Reachable := ⟨_, kiosk, ⟨{}, ["restrictions"], _, rfl, rfl⟩, .refl _⟩
  have hq : kiosk.Quiescent := quiescent_of_quiet rfl
  have hop : Operation.Admitted kiosk.engine.config.device kiosk.core (.request .lock) :=
    ⟨_, .request (by decide) rfl rfl⟩
  have hattempts : Attempts (.request .lock) kiosk m := .again .none hm
  obtain ⟨hrepeated, hsame⟩ := failed_attempts_repeatable hb hq hop hattempts
  obtain ⟨m', -, hm'⟩ := hrepeated epoch
  obtain ⟨m₁, -, x, hx⟩ := (hm' m' (.refl m')).exists_reaches
  obtain ⟨b', -, hb'⟩ := (failed_attempts_repeatable hb hq hop .none).1 epoch
  obtain ⟨m₂, -, y, hy⟩ := (hb' b' (.refl b')).exists_reaches
  exact ⟨m, x, m₁, y, m₂, hattempts, hcursor, hprovision, hx, hy, hsame x m₁ y m₂ hx hy⟩

end Machine

end DeviceLock
