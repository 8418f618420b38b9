import DeviceLock.Proofs.Engine.Turn
import DeviceLock.Proofs.Program.Course

/-!
Each lane has a part of the state that only its own jobs move. `Lane.Story` is what its job sees:
its own deeds, between steps of the others that spare this part.
-/

namespace DeviceLock

theorem Core.Tells.agree {c c' : Core} {l : List Deed} {key : Key} (h : c.Tells l c')
    (hw : ∀ k u, .request (.write k) (.ok u) ∈ l → k.key ≠ key) :
    c'.document.Agree c.document key := by
  induction h with
  | nil c => exact .refl _ _
  | @cons c c' d l _ _ ih =>
    refine (ih fun k u hmem => hw k u (List.mem_cons_of_mem _ hmem)).trans ?_
    cases d with
    | act a x => cases a <;> exact .refl _ _
    | request r x =>
      cases r with
      | cursor => cases x <;> exact .refl _ _
      | write k =>
        cases x with
        | error f => exact .refl _ _
        | ok u => exact Document.apply_touches _ k (hw k u List.mem_cons_self).symm
      | _ => exact .refl _ _

theorem Core.Tells.device {c c' : Core} {l : List Deed} (h : c.Tells l c')
    (hw : ∀ s u, .request (.write (.device s)) (.ok u) ∉ l) :
    c'.document.device = c.document.device := by
  have hdevice : c'.document.Agree c.document .device := h.agree fun k u hmem hk => by
    cases k with
    | device s => exact hw s u hmem
    | _ => cases hk
  exact hdevice

namespace Lane

def Spares : Lane → Core → Core → Prop
  | policy, c, c' =>
    c'.position = c.position ∧ c'.document.provision = c.document.provision ∧
      ∀ s, c.cursor = some s → c'.cursor = some s
  | requests, c, c' => c'.pseudo = c.pseudo ∧ c'.document.device = c.document.device
  | finalization, c, c' => c'.document.finalization = c.document.finalization

def Owns : Lane → Deed → Prop
  | policy, .act (.moveCursor _) _ => True
  | policy, .request (.write c) (.ok _) => c.key = .provision
  | requests, .act (.setPseudo _) _ => True
  | requests, .request (.write c) (.ok _) => c.key = .device
  | finalization, .request (.write c) (.ok _) => c.key = .finalization
  | _, _ => False

variable {lane : Lane} {c c₁ c' : Core} {d : Deed} {l : List Deed}

theorem Spares.refl (lane : Lane) (c : Core) : lane.Spares c c := by
  cases lane <;> simp [Spares]

theorem Spares.trans (h : lane.Spares c c₁) (h' : lane.Spares c₁ c') : lane.Spares c c' := by
  cases lane with
  | policy =>
    obtain ⟨hp, hs, hc⟩ := h
    obtain ⟨hp', hs', hc'⟩ := h'
    exact ⟨hp'.trans hp, hs'.trans hs, fun s h => hc' s (hc s h)⟩
  | requests => exact ⟨h'.1.trans h.1, h'.2.trans h.2⟩
  | finalization => exact Eq.trans h' h

theorem spares_of_not_owns (hd : d.Fits c) (h : ¬ lane.Owns d) : lane.Spares c (d.effect c) := by
  cases d with
  | act a x =>
    cases lane <;> cases a <;> simp_all [Owns, Spares, Deed.effect, Core.position]
  | request r x =>
    cases r with
    | cursor =>
      cases x with
      | error f => exact Spares.refl lane c
      | ok s =>
        obtain rfl : s = c.position := hd
        cases lane <;> simp_all [Spares, Deed.effect, Core.position]
    | write k =>
      cases x with
      | error f => exact Spares.refl lane c
      | ok u =>
        cases lane <;> cases k <;>
          simp_all [Owns, Spares, Deed.effect, Core.position, Change.key, Change.apply]
    | _ => exact Spares.refl lane c

theorem spares_of_tells (h : c.Tells l c') (ho : ∀ d ∈ l, ¬ lane.Owns d) : lane.Spares c c' := by
  induction h with
  | nil c => exact Spares.refl lane c
  | cons hd _ ih =>
    obtain ⟨ho, hl⟩ := List.forall_mem_cons.mp ho
    exact (spares_of_not_owns hd ho).trans (ih hl)

theorem not_owns_of_within {other : Lane} (hne : other ≠ lane) (h : d.Within other.footprint) :
    ¬ lane.Owns d := by
  cases d with
  | act a x => cases other <;> cases lane <;> cases a <;> simp_all [Owns, Deed.Within, footprint]
  | request r x =>
    cases r with
    | write k =>
      cases x with
      | error f => cases lane <;> exact id
      | ok u =>
        cases other <;> cases lane <;> cases k <;>
          simp_all [Owns, Deed.Within, footprint, Change.key]
    | _ => cases lane <;> exact id

theorem not_owns_of_caller {J : Job → Prop} (h : d.Within (.caller J)) : ¬ lane.Owns d := by
  cases d with
  | act a x => cases lane <;> cases a <;> simp_all [Owns, Deed.Within, Footprint.caller]
  | request r x =>
    cases r with
    | write k =>
      cases x with
      | error f => cases lane <;> exact id
      | ok u =>
        cases lane <;> cases k <;> simp_all [Owns, Deed.Within, Footprint.caller, Change.key]
    | _ => cases lane <;> exact id

abbrev Story (lane : Lane) : Core → List Deed → Core → Prop :=
  Course (fun d c c' => d.Fits c ∧ c' = d.effect c) lane.Spares

theorem story_of_tells (h : c.Tells l c') : lane.Story c l c' := by
  induction h with
  | nil c => exact .nil c
  | cons hd _ ih => exact .deed ⟨hd, rfl⟩ ih

theorem Story.head (h : lane.Story c (d :: l) c') :
    ∃ c₁, lane.Spares c c₁ ∧ d.Fits c₁ ∧ lane.Story (d.effect c₁) l c' := by
  obtain ⟨c₁, _, hs, ⟨hd, rfl⟩, hl⟩ :=
    Course.head h (fun _ _ hs h => h.trans hs) (Spares.refl lane c)
  exact ⟨c₁, hs, hd, hl⟩

theorem Story.spares (h : lane.Story c l c') (ho : ∀ d ∈ l, ¬ lane.Owns d) :
    lane.Spares c c' := by
  refine Course.keeps h (fun _ _ hs h => h.trans hs) (fun d hd c₁ _ he h => ?_) (Spares.refl lane c)
  obtain ⟨hfits, rfl⟩ := he
  exact h.trans (spares_of_not_owns hfits (ho d hd))

theorem Story.fits (h : lane.Story c l c') (ho : ∀ d ∈ l, ¬ lane.Owns d) (hd : d ∈ l) :
    ∃ c₁, lane.Spares c c₁ ∧ d.Fits c₁ := by
  obtain ⟨i, k, rfl⟩ := List.append_of_mem hd
  obtain ⟨c₁, hi, hk⟩ := h.split
  have hs : lane.Spares c c₁ := Story.spares hi fun e he => ho e (List.mem_append_left _ he)
  obtain ⟨c₂, hs', hfits, -⟩ := Story.head hk
  exact ⟨c₂, hs.trans hs', hfits⟩

end Lane

end DeviceLock
