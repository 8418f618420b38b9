import DeviceLock.Proofs.Program.Walk

/-!
The deeds of one task between the steps of all others, on a state of any kind. What the others keep
is carried from deed to deed: `Course.head` and `Course.keeps`.
-/

namespace DeviceLock

variable {S : Type} {E : Deed → S → S → Prop} {R : S → S → Prop} {I : S → Prop} {s s₁ s' : S}
  {d : Deed} {k l : List Deed}

inductive Course (E : Deed → S → S → Prop) (R : S → S → Prop) : S → List Deed → S → Prop
  | nil (s : S) : Course E R s [] s
  | beside {s s₁ s' : S} {l : List Deed} (hr : R s s₁) (h : Course E R s₁ l s') : Course E R s l s'
  | deed {s s₁ s' : S} {d : Deed} {l : List Deed} (hd : E d s s₁) (h : Course E R s₁ l s') :
      Course E R s (d :: l) s'

namespace Course

theorem append (h : Course E R s k s₁) (hl : Course E R s₁ l s') : Course E R s (k ++ l) s' := by
  induction h with
  | nil => exact hl
  | beside hr _ ih => exact .beside hr (ih hl)
  | deed hd _ ih => exact .deed hd (ih hl)

theorem then_beside (h : Course E R s l s₁) (hr : R s₁ s') : Course E R s l s' := by
  have happend := h.append (.beside hr (.nil s'))
  rwa [List.append_nil] at happend

theorem split (h : Course E R s (k ++ l) s') :
    ∃ s₁, Course E R s k s₁ ∧ Course E R s₁ l s' := by
  generalize hj : k ++ l = j at h
  induction h generalizing k with
  | nil s =>
    obtain ⟨rfl, rfl⟩ := List.append_eq_nil_iff.mp hj
    exact ⟨s, .nil s, .nil s⟩
  | beside hr _ ih =>
    obtain ⟨s₁, hk, hl⟩ := ih hj
    exact ⟨s₁, .beside hr hk, hl⟩
  | deed hd h ih =>
    cases k with
    | nil =>
      obtain rfl := hj
      exact ⟨_, .nil _, .deed hd h⟩
    | cons d k =>
      obtain ⟨rfl, htail⟩ := List.cons.inj hj
      obtain ⟨s₁, hk, hl⟩ := ih htail
      exact ⟨s₁, .deed hd hk, hl⟩

theorem head (h : Course E R s (d :: l) s') (hR : ∀ s s', R s s' → I s → I s') (hI : I s) :
    ∃ s₁ s₂, I s₁ ∧ E d s₁ s₂ ∧ Course E R s₂ l s' := by
  generalize hj : d :: l = j at h
  induction h with
  | nil => cases hj
  | beside hr _ ih => exact ih (hR _ _ hr hI) hj
  | deed hd h =>
    obtain ⟨rfl, rfl⟩ := List.cons.inj hj
    exact ⟨_, _, hI, hd, h⟩

theorem keeps (h : Course E R s l s') (hR : ∀ s s', R s s' → I s → I s')
    (hE : ∀ d ∈ l, ∀ s s', E d s s' → I s → I s') (hI : I s) : I s' := by
  induction h with
  | nil => exact hI
  | beside hr _ ih => exact ih hE (hR _ _ hr hI)
  | deed hd _ ih =>
    obtain ⟨hfirst, hrest⟩ := List.forall_mem_cons.mp hE
    exact ih hrest (hfirst _ _ hd hI)

theorem stays (h : Course E R s [] s') (hR : ∀ s s', R s s' → I s → I s') (hI : I s) : I s' :=
  h.keeps hR (by simp) hI

end Course

end DeviceLock
