import DeviceLock.Proofs.Engine.Span
import DeviceLock.Proofs.Program.Endings

namespace DeviceLock

namespace Lane

variable {lane : Lane} {c c' : Core} {d : Deed} {k l : List Deed}

theorem Story.keeps {α : Type} {F : Footprint} {Q : Except Fault α → Prop} {I : Core → Prop}
    {p q : Program α} (hl : lane.Story c l c') (hw : Program.Walk p l q) (hp : p.Meets F Q)
    (hI : I c) (hspares : ∀ c c', lane.Spares c c' → I c → I c')
    (hanswers : ∀ c r x, I c → (Deed.request r x).Fits c → F.answers r x)
    (heffect : ∀ (c : Core) (d : Deed), I c → d.Fits c → d.Within F → I (d.effect c)) :
    I c' ∧ q.Meets F Q := by
  induction hw generalizing c with
  | stay p => exact ⟨hl.stays hspares hI, hp⟩
  | act x _ ih =>
    obtain ⟨c₁, hs, hd, hl⟩ := hl.head
    exact ih hl (hp.2 x) (heffect _ _ (hspares _ _ hs hI) hd hp.1)
  | wait x _ ih =>
    obtain ⟨c₁, hs, hd, hl⟩ := hl.head
    have h₁ := hspares _ _ hs hI
    exact ih hl (hp.2 x (hanswers _ _ _ h₁ hd)) (heffect _ _ h₁ hd hp.1)

theorem moving_of_fits {Q : ProvisionState → Prop} {r : Request} {x : r.Answer}
    (hc : Q c.position) (hd : (Deed.request r x).Fits c) : (Footprint.moving Q).answers r x := by
  cases r with
  | cursor =>
    cases x with
    | error f => trivial
    | ok s =>
      obtain rfl : s = c.position := hd
      exact hc
  | _ => trivial

theorem position_of_effect {Q : ProvisionState → Prop} (hc : Q c.position) (hd : d.Fits c)
    (hw : d.Within (.moving Q)) : Q (d.effect c).position := by
  cases d with
  | act a x => cases a <;> first | exact hw | exact hc
  | request r x =>
    cases r with
    | cursor =>
      cases x with
      | error f => exact hc
      | ok s =>
        obtain rfl : s = c.position := hd
        exact hc
    | write k =>
      cases x with
      | error f => exact hc
      | ok u =>
        cases k with
        | provision s =>
          change Q (c.cursor.getD s)
          cases hcursor : c.cursor with
          | none => exact hw
          | some p =>
            have hp : c.position = p := by simp [Core.position, hcursor]
            exact hp ▸ hc
        | _ => exact hc
    | _ => exact hc

theorem Story.position_of_moving {α : Type} {Q : ProvisionState → Prop} {p q : Program α}
    (hl : policy.Story c l c') (hw : Program.Walk p l q) (hp : p.Within (.moving Q))
    (hc : Q c.position) : Q c'.position := by
  refine (hl.keeps (I := fun c => Q c.position) hw hp hc ?_ ?_ ?_).1
  · intro c c' hs hc
    rwa [hs.1]
  · exact fun c r x => moving_of_fits
  · exact fun c d => position_of_effect

theorem not_owns_of_entering (h : d.Within .entering) : ¬ policy.Owns d := by
  cases d with
  | act a x =>
    obtain rfl : a = .now := h
    exact id
  | request r x =>
    cases r with
    | write k =>
      cases x with
      | error f => exact id
      | ok u =>
        intro ho
        have : Key.startTime = Key.provision := h.symm.trans ho
        cases this
    | _ => exact id

theorem not_owns_of_enforcing (h : d.Within .enforcing) : ¬ policy.Owns d := by
  cases d with
  | act a x => cases a <;> first | exact id | exact h.elim
  | request r x => cases r <;> first | exact id | exact h.elim

theorem not_owns_of_escalating (h : d.Within .escalating) : ¬ policy.Owns d := by
  cases d with
  | act a x => cases a <;> first | exact id | exact h.elim
  | request r x => cases r <;> first | exact id | exact h.elim

end Lane

structure Core.Stands (c : Core) (p s : ProvisionState) : Prop where
  cursor : c.cursor = some p
  stored : c.document.provision = s

namespace Core.Stands

open Lane

variable {c c' : Core} {p s n : ProvisionState} {k l : List Deed}

theorem position (h : c.Stands p s) : c.position = p := by
  simp [Core.position, h.cursor]

theorem spares (h : c.Stands p s) (hs : policy.Spares c c') : c'.Stands p s where
  cursor := hs.2.2 p h.cursor
  stored := hs.2.1.trans h.stored

theorem still (h : c.Stands p s) (hl : policy.Story c l c') (ho : ∀ d ∈ l, ¬ policy.Owns d) :
    c'.Stands p s :=
  h.spares (hl.spares ho)

theorem segment (h : c.Stands p s) (hl : policy.Story c (k ++ l) c')
    (ho : ∀ d ∈ k, ¬ policy.Owns d) : ∃ c₁, c₁.Stands p s ∧ policy.Story c₁ l c' := by
  obtain ⟨c₁, hk, hl⟩ := hl.split
  exact ⟨c₁, h.still hk ho, hl⟩

theorem read {x : Request.cursor.Answer} (h : c.Stands p s)
    (hl : policy.Story c (.request .cursor x :: l) c') : x = .ok p := by
  obtain ⟨c₁, hs, hd, -⟩ := hl.head
  have h₁ := h.spares hs
  cases x with
  | error f =>
    have : c₁.cursor = none := hd
    rw [h₁.cursor] at this
    cases this
  | ok q =>
    have : q = c₁.position := hd
    rw [this, h₁.position]

theorem write {u : Unit} (h : c.Stands p s)
    (hl : policy.Story c (.request (.write (.provision n)) (.ok u) :: l) c') :
    ∃ c₁, c₁.Stands p n ∧ policy.Story c₁ l c' := by
  obtain ⟨c₁, hs, -, hl⟩ := hl.head
  refine ⟨_, ?_, hl⟩
  exact ⟨(h.spares hs).cursor, rfl⟩

theorem move {x : (Act.moveCursor n).Answer} (h : c.Stands p s)
    (hl : policy.Story c (.act (.moveCursor n) x :: l) c') :
    ∃ c₁, c₁.Stands n s ∧ policy.Story c₁ l c' := by
  obtain ⟨c₁, hs, -, hl⟩ := hl.head
  refine ⟨_, ?_, hl⟩
  exact ⟨rfl, (h.spares hs).stored⟩

theorem of_cursor (hl : policy.Story c (.request .cursor (.ok p) :: l) c') :
    p = c.position ∧ ∃ c₁, c₁.Stands p c.document.provision ∧ policy.Story c₁ l c' := by
  obtain ⟨c₁, hs, hd, hl⟩ := hl.head
  have hp : p = c₁.position := hd
  refine ⟨hp.trans hs.1, _, ?_, hl⟩
  exact ⟨rfl, hs.2.1⟩

end Core.Stands

end DeviceLock
