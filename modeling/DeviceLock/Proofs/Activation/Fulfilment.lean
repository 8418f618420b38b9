import DeviceLock.Proofs.Activation.Attempts

namespace DeviceLock.Scheduler

section

variable {ι : Type}

inductive Fares (shown : Option LockMode) (w : ActivationWork ι) : Prop
  | entering (ht : w.status.isTerminal = false)
      (hp : w.phase = .starting ∨ ∃ n, w.phase = .entering n)
  | entered {n : Nat} (ht : w.status.isTerminal = false) (hp : w.phase = .observing n)
      (hs : shown = some w.mode)
  | ended (ht : w.status.isTerminal = true) (hp : w.phase = .stopped) (hs : shown = some w.mode)

def Rested (s : Scheduler ι) : Prop :=
  ∀ w, s.slot = some w → w.status.isTerminal = true ∧ w.phase = .stopped

def Shows (s : Scheduler ι) (shown : Option LockMode) (mode : LockMode) : Prop :=
  ∃ w, s.slot = some w ∧ w.mode = mode ∧ Fares shown w

def Presents (s : Scheduler ι) (shown : Option LockMode) (mode : LockMode) : Prop :=
  if mode.isActive then s.Shows shown mode else s.Rested ∧ shown = none

def Fit (s : Scheduler ι) (shown : Option LockMode) : Prop :=
  s.Rested ∨ ∃ mode, s.Shows shown mode

inductive Takes (s : Scheduler ι) (shown : Option LockMode) : Option LockMode → Prop
  | still : Takes s shown shown
  | early {w : ActivationWork ι} {n : Nat} (hw : s.slot = some w) (hp : w.phase = .entering n) :
      Takes s shown (some w.mode)

inductive Serves (s : Scheduler ι) (shown : Option LockMode) : TaskStep → Option LockMode → Prop
  | start : Serves s shown .start shown
  | entered {w : ActivationWork ι} (hw : s.slot = some w) : Serves s shown .entered (some w.mode)
  | observed : Serves s shown (.observed shown) shown

variable {s s' : Scheduler ι} {shown shown' : Option LockMode} {mode : LockMode}

theorem Rested.takes (h : s.Rested) (ht : s.Takes shown shown') : shown' = shown := by
  cases ht with
  | still => rfl
  | early hw hp =>
    rw [(h _ hw).2] at hp
    cases hp

theorem Shows.takes (h : s.Shows shown mode) (ht : s.Takes shown shown') :
    s.Shows shown' mode := by
  obtain ⟨w, hw, hm, hfares⟩ := h
  cases ht with
  | still => exact ⟨w, hw, hm, hfares⟩
  | early hv hp =>
    obtain rfl := Option.some.inj (hw.symm.trans hv)
    refine ⟨w, hw, hm, ?_⟩
    cases hfares with
    | entering ht hp => exact .entering ht hp
    | entered ht hp' => exact .entered ht hp' rfl
    | ended ht hp' => exact .ended ht hp' rfl

theorem Presents.fit (h : s.Presents shown mode) : s.Fit shown := by
  unfold Presents at h
  split at h
  · exact .inr ⟨mode, h⟩
  · exact .inl h.1

theorem Presents.settled (h : s.Presents shown mode)
    (hs : ∀ w, s.slot = some w → w.status.isTerminal = true) :
    shown = if mode.isActive then some mode else none := by
  unfold Presents at h
  split
  · rename_i hactive
    rw [if_pos hactive] at h
    obtain ⟨w, hw, rfl, hfares⟩ := h
    have hended := hs w hw
    cases hfares with
    | entering ht => simp [ht] at hended
    | entered ht => simp [ht] at hended
    | ended _ _ hshown => exact hshown
  · rename_i hactive
    rw [if_neg hactive] at h
    exact h.2

end

variable {ι : Type} [DecidableEq ι] {s s' : Scheduler ι} {shown shown' : Option LockMode}
  {mode : LockMode} {now : Timestamp} {t : TaskStep}

theorem Rested.step (h : s.Rested) : s.step? now t ≠ some s' := by
  intro hs
  obtain ⟨w, w', hstep⟩ := step_cases hs
  exact hstep.advances.ne_stopped (h w hstep.before).2

theorem Shows.serves (h : s.Shows shown mode) (hs : s.Serves shown t shown')
    (hstep : s.step? now t = some s') : s'.Shows shown' mode := by
  obtain ⟨w, hw, hm, hfares⟩ := h
  obtain ⟨v, w', hst⟩ := step_cases hstep
  obtain rfl := Option.some.inj (hw.symm.trans hst.before)
  refine ⟨w', hst.after, hst.mode.trans hm, ?_⟩
  have hlive : w.status.isTerminal = false := by
    cases hfares with
    | entering ht => exact ht
    | entered ht => exact ht
    | ended _ hp => exact absurd hp hst.advances.ne_stopped
  have hgoes (hp : w'.phase ≠ .stopped) : w'.status.isTerminal = false :=
    Bool.eq_false_iff.mpr fun ht => hp (hst.live hlive ht)
  have hadv := hst.advances
  generalize hphase : w'.phase = phase at hadv hgoes
  cases hs with
  | start =>
    cases hadv
    exact .entering (hgoes (by simp)) (.inr ⟨1, hphase⟩)
  | entered hv =>
    obtain rfl := Option.some.inj (hw.symm.trans hv)
    cases hadv with
    | entered hp => exact .entered (hgoes (by simp)) hphase (congrArg some hst.mode.symm)
  | observed =>
    cases hadv with
    | shown hp =>
      have hstatus := hst.completed hlive rfl
      refine .ended ?_ hphase (congrArg some hst.mode.symm)
      rw [hstatus]
      rfl
    | missed hp ho =>
      -- The mode was in effect when its entry returned, and no one else changes it.
      cases hfares with
      | entering _ hp' => rcases hp' with hp' | ⟨n, hp'⟩ <;> rw [hp] at hp' <;> cases hp'
      | entered _ _ hshown => exact absurd hshown ho
      | ended _ hp' => rw [hp] at hp'; cases hp'

inductive Moves (s : Scheduler ι) (shown : Option LockMode) :
    Scheduler ι → Option LockMode → Prop
  | takes {shown' : Option LockMode} (h : s.Takes shown shown') : Moves s shown s shown'
  | task {s' : Scheduler ι} {shown₁ shown' : Option LockMode} {now : Timestamp} {t : TaskStep}
      (ht : s.Takes shown shown₁) (hs : s.Serves shown₁ t shown') (h : s.step? now t = some s') :
      Moves s shown s' shown'

theorem Rested.moves (h : s.Rested) (hm : s.Moves shown s' shown') :
    s'.Rested ∧ shown' = shown := by
  cases hm with
  | takes ht => exact ⟨h, h.takes ht⟩
  | task _ _ hs => exact absurd hs h.step

theorem Shows.moves (h : s.Shows shown mode) (hm : s.Moves shown s' shown') :
    s'.Shows shown' mode := by
  cases hm with
  | takes ht => exact h.takes ht
  | task ht hs hstep => exact (h.takes ht).serves hs hstep

theorem Fit.moves (h : s.Fit shown) (hm : s.Moves shown s' shown') : s'.Fit shown' := by
  rcases h with h | ⟨mode, h⟩
  · exact .inl (h.moves hm).1
  · exact .inr ⟨mode, h.moves hm⟩

theorem Presents.moves (h : s.Presents shown mode) (hm : s.Moves shown s' shown') :
    s'.Presents shown' mode := by
  unfold Presents at h ⊢
  split
  · rename_i hactive
    rw [if_pos hactive] at h
    exact h.moves hm
  · rename_i hactive
    rw [if_neg hactive] at h
    obtain ⟨hrested, hshown⟩ := h.1.moves hm
    exact ⟨hrested, hshown.trans h.2⟩

theorem Fit.cancel (h : s.Fit shown) (now : Timestamp) : (s.cancel now).Rested := by
  have hstopped (w : ActivationWork ι) (hw : s.slot = some w)
      (ht : w.status.isTerminal = true) : w.phase = .stopped := by
    rcases h with h | ⟨mode, v, hv, -, hfares⟩
    · exact (h w hw).2
    · obtain rfl := Option.some.inj (hw.symm.trans hv)
      cases hfares with
      | entering ht' => simp [ht] at ht'
      | entered ht' => simp [ht] at ht'
      | ended _ hp => exact hp
  intro w' hw'
  obtain ⟨hended, w, hw, ⟨ht, rfl⟩ | ⟨-, hp⟩⟩ := (cancel_cases s now).2.2 w' hw'
  · exact ⟨ht, hstopped w' hw ht⟩
  · exact ⟨hended, hp⟩

theorem Fit.schedule (h : s.Fit shown) (now : Timestamp) (fresh : ι) (mode : LockMode) :
    (s.schedule now fresh mode).1.Shows shown mode := by
  obtain ⟨-, -, w, hw, hm, ht, hkept | hp⟩ := schedule_cases s now fresh mode
  · refine ⟨w, hw, hm, ?_⟩
    rcases h with h | ⟨other, v, hv, -, hfares⟩
    · rw [(h w hkept).1] at ht
      cases ht
    · obtain rfl := Option.some.inj (hkept.symm.trans hv)
      exact hfares
  · exact ⟨w, hw, hm, .entering ht (.inl hp)⟩

end DeviceLock.Scheduler
