import DeviceLock.Proofs.Engine.Attendance
import DeviceLock.Proofs.Engine.FinalizationCache

namespace DeviceLock

open Program

namespace Engine

variable {e : Engine} {t : Ticket} {r : Reply}

theorem ended_of_answer (hlive : (e.queue t.lane).closed = false)
    (h : e.answer? t = some (.ok r)) :
    ∃ v, (e.queue t.lane).ended[t.index]? = some (.done v (.ok r)) := by
  obtain ⟨x, hx, hanswer⟩ := (answer?_eq_some_iff hlive).mp h
  cases x with
  | done v a =>
    obtain rfl : a = .ok r := hanswer
    exact ⟨v, hx⟩
  | failed f => cases hanswer
  | panicked => cases hanswer

end Engine

namespace Program

variable {α β : Type} {l : List Deed}

theorem ends_await_ok {j : Job} {f : Unit → Program β} {a : β}
    (h : Ends (discard (await j) >>= f) l (.ok a)) :
    ∃ t r k, l = .act (.submit j) t :: .request (.await t) (.ok r) :: k ∧
      Ends (f ()) k (.ok a) := by
  rcases ends_discard_await.mp h with ⟨t, e, -, he⟩ | hk
  · cases he
  · exact hk

theorem awaits_of_clear {config : DeviceConfig} {d s : DeviceState} {u : Unit}
    (h : Ends (carryOut config .clear) l (.ok d)) (hs : .request (.write (.device s)) (.ok u) ∈ l) :
    ∃ t r, .act (.submit (.finalization .cleared)) t ∈ l ∧ .request (.await t) (.ok r) ∈ l := by
  rw [carryOut_eq] at h
  rcases ends_bind.mp h with ⟨e, -, he⟩ | ⟨⟨p, x⟩, k, m, rfl, hk, hm⟩
  · cases he
  have hs : .request (.write (.device s)) (.ok u) ∈ m := by
    refine (List.mem_append.mp hs).resolve_left fun hmem => ?_
    exact (effective_within.walk (fun _ _ => trivial) hk _ hmem).elim
  dsimp only at hm
  split at hm
  · simp at hm
  · obtain ⟨y, k, rfl, hk⟩ := ends_perform_bind.mp hm
    obtain ⟨rfl, -⟩ := ends_pure.mp hk
    simp at hs
  · rename_i target hplan
    obtain rfl := (DeviceRequest.plan_persist hplan).2
    rcases ends_write.mp hm with ⟨f, -, he⟩ | ⟨v, k, rfl, hk⟩
    · cases he
    obtain ⟨t, r, k, rfl, hk'⟩ := ends_await_ok hk
    have hnotice : Ends (discard (await (.finalization .cleared)) >>= fun _ =>
        pure DeviceRequest.clear.target) k (.ok d) := hk'
    obtain ⟨t', r', k', rfl, -⟩ := ends_await_ok hnotice
    exact ⟨t', r', by simp, by simp⟩

end Program

theorem Core.Tells.finalization {c c' : Core} {l : List Deed} (h : c.Tells l c')
    (hw : ∀ u, .request (.write (.finalization .unfinalized)) (.ok u) ∉ l)
    (hc : c.document.finalization ≠ .unfinalized) : c'.document.finalization ≠ .unfinalized := by
  induction h with
  | nil => exact hc
  | @cons c c' d l hd _ ih =>
    apply ih fun u hmem => hw u (List.mem_cons_of_mem _ hmem)
    rw [Deed.finalization_effect]
    intro hd
    unfold Deed.finalized at hd
    split at hd
    · subst hd
      exact hw _ List.mem_cons_self
    · exact hc hd

theorem Regime.usual_finalization {a : Action} {u : Unit} :
    ¬ (Deed.request (.write (.finalization .unfinalized)) (.ok u)).Within (usual.of a) := by
  unfold Regime.of
  split
  · rename_i lane _
    cases lane with
    | policy => rintro (h | h) <;> cases h
    | requests => exact Key.noConfusion
    | finalization =>
      rintro ⟨s, hs, hne⟩
      exact hne (Change.finalization.inj hs).symm
  · rintro (h | h) <;> cases h

namespace Machine

variable {P : Action → Prop} {b m m' : Machine} {now : Timestamp} {a : Action} {l : List Deed}

theorem Reaches.stored (h : Reaches P m m') (hm : m.Follows .usual)
    (hs : m.stored ≠ .unfinalized) : m'.stored ≠ .unfinalized := by
  induction h with
  | refl => exact hs
  | @step m₁ m₂ now a h _ hstep ih =>
    by_cases hr : a = .restart
    · subst hr
      obtain rfl : { m₁ with engine := m₁.engine.renewed } = m₂ := Option.some.inj hstep
      exact ih
    · have hlog := ((h.usual hm).step hstep (admits_usual _ _ _)).1
      exact (step_frame hstep hr).core.finalization
        (fun u hmem => Regime.usual_finalization (hlog _ hmem)) ih

theorem notice_stores {config : EngineConfig} {cached : Option FinalizationState}
    (h : Coherent cached .unfinalized) :
    (FinalizationJob.cleared.program config cached).Tracks False (fun _ => True)
      (fun now r => ∀ a, r = .ok a → now ≠ .unfinalized) .unfinalized := by
  have hjob : (finalization config.recovery cached .cleared).Tracks False (fun _ => True)
      (fun now r => ∀ a, r = .ok a → now ≠ .unfinalized) .unfinalized := by
    apply FinalizationJob.tracks_of_coherent h trivial (fun _ e => by simp)
    rw [finalization_cleared]
    refine ⟨trivial, fun x _ _ => ?_⟩
    cases x with
    | error f => rintro a ⟨⟩
    | ok u =>
      have hstored : (Deed.request (.write (.finalization .unreported)) (.ok u)).finalized
          .unfinalized ≠ .unfinalized := by simp [Deed.finalized]
      refine sendReport_tracks (fun h => absurd rfl h) fun _ => ⟨trivial, ?_, fun _ => ⟨?_, ?_⟩⟩
      · rintro a -
        simp
      · exact fun a _ => hstored
      · exact fun e a _ => hstored
  apply tracks_bind.mpr
  apply hjob.imp
  intro s r hs
  cases r with
  | error f => rintro a ⟨⟩
  | ok t => exact fun a _ => hs t rfl

def Noticed (m : Machine) : Prop :=
  ∀ v x, (.cleared, .done v x) ∈ (m.engine.queue .finalization).outcomes →
    m.stored ≠ .unfinalized

theorem noticed_of_works (hb : b.Reachable) (hidle : b.Idle .finalization) (hI : b.Noticed)
    (hw : Works .finalization P b l m) : m.Noticed := by
  intro v x h
  obtain ⟨j, hj, hspan⟩ := hw.span hb.usual
  have hordered := hb.ordered .finalization
  have hstored (hs : b.stored ≠ .unfinalized) : m.stored ≠ .unfinalized :=
    hw.reaches.stored hb.usual hs
  cases hspan.stage with
  | running _ _ he =>
    obtain ⟨jobs, hjobs⟩ := hspan.submitted
    rw [JobQueue.outcomes_same hordered ⟨jobs, hjobs.symm⟩ he] at h
    exact hstored (hI v x h)
  | ended _ hend he =>
    rw [hspan.outcomes hb.ordered hj he] at h
    rcases List.mem_append.mp h with h | h
    · exact hstored (hI v x h)
    obtain ⟨rfl, rfl⟩ := Prod.mk.inj (List.mem_singleton.mp h)
    -- The job is the notice itself. Unless the end was stored before, it has done so.
    by_cases hs : b.stored = .unfinalized
    · have hc : Coherent b.cached .unfinalized := by
        rw [← hs]
        exact (coherent_or_lapsed hb hidle).resolve_right fun hl => by
          rw [hs] at hl
          cases hl.2
      have htracks : (b.opening .finalization .cleared).Tracks False (fun _ => True)
          (fun now r => ∀ a, r = .ok a → now ≠ .unfinalized) b.stored := by
        rw [hs]
        exact notice_stores hc
      cases hend with
      | done h => exact htracks.walk h hspan.story (fun h => h.elim) _ rfl
    · exact hstored hs

theorem Reachable.noticed (hm : m.Reachable) : m.Noticed := by
  obtain ⟨d, m₀, hfresh, hr⟩ := hm
  have hnone {m : Machine} (hm : (m.engine.queue .finalization).outcomes = []) : m.Noticed := by
    intro v x h
    rw [hm] at h
    cases h
  have h₀ : m₀.Idle .finalization ∧ m₀.Noticed := by
    refine ⟨hfresh.idle _, hnone ?_⟩
    rw [hfresh.engine.1]
    rfl
  have hreachable {b : Machine} (hb : Reaches (fun _ => True) m₀ b) : b.Reachable :=
    ⟨d, m₀, hfresh, hb⟩
  have hcases := hr.boundary_or_works h₀ (fun m _ _ => hnone rfl) ?_ fun b l m hb hidle hI hw _ =>
    noticed_of_works (hreachable hb) hidle hI hw
  · rcases hcases with ⟨-, hI⟩ | ⟨-, b, l, hb, hidle, hI, hw⟩
    · exact hI
    · exact noticed_of_works (hreachable hb) hidle hI hw
  · intro m now a m' hm _ hI hp ha hrestart hs v x h
    obtain ⟨hsub, -⟩ := step_grows hs hrestart .finalization
    have hended := (step_frame hs hrestart).ended ha
    rw [JobQueue.outcomes_same ((hreachable hm).ordered .finalization) hsub hended] at h
    have hstep : Reaches (fun _ => True) m m' := (Reaches.refl m).step hp hs
    exact hstep.stored (hreachable hm).usual (hI v x h)

theorem Works.awaited {lane : Lane} {j : FinalizationJob} {t : Ticket} {r : Reply}
    (hw : Works lane P b l m) (hb : b.Reachable)
    (hsub : .act (.submit (.finalization j)) t ∈ l) (hr : .request (.await t) (.ok r) ∈ l) :
    ∃ v, (j, .done v (.ok r)) ∈ (m.engine.queue .finalization).outcomes := by
  obtain ⟨i, -, hspan⟩ := hw.span hb.usual
  obtain ⟨w, hjob, hplace⟩ := hspan.keeps _ _ hsub
  have hlive := (hw.reaches.ordered hb.ordered t.lane).live
  obtain ⟨v, hv⟩ := Engine.ended_of_answer hlive (hw.answers hb.ordered hr)
  obtain ⟨tlane, index⟩ := t
  cases tlane with
  | policy => cases hjob
  | requests => cases hjob
  | finalization =>
    obtain rfl : w = j := by cases hjob; rfl
    exact ⟨v, JobQueue.mem_outcomes hplace hv⟩

structure Clears (b : Machine) (l : List Deed) (m : Machine) : Prop where
  reachable : b.Reachable
  next : b.engine.requests.next? = some .clear
  works : Works .requests (fun _ => True) b l m
  stored : .request (.write (.device .cleared)) (.ok ()) ∈ l

def Acknowledges (b m : Machine) : Prop :=
  ∃ r, m.engine.requests.ended = b.engine.requests.ended ++ [.done () (.ok r)]

theorem Clears.finalizes (h : Clears b l m) (hack : b.Acknowledges m) :
    m.stored ≠ .unfinalized := by
  obtain ⟨x, he⟩ := hack
  have hspan := h.works.span_of_next h.reachable.usual h.next
  have hends : Ends (carryOut b.engine.config.device .clear >>= fun d => keep () (.device d)) l
      (.ok ((), .ok x)) := by
    have he : (m.engine.queue .requests).ended =
        (b.engine.queue .requests).ended ++ [.done () (.ok x)] := he
    cases hspan.ending he with
    | done h => exact h
  rcases ends_bind.mp hends with ⟨e, -, he⟩ | ⟨d, k, k', hl, hd, hk⟩
  · cases he
  obtain ⟨rfl, -⟩ := ends_pure.mp hk
  rw [List.append_nil] at hl
  subst hl
  -- The clear has waited for the notice, so that is among the jobs that have ended.
  obtain ⟨t, r, hsub, hr⟩ := awaits_of_clear hd h.stored
  obtain ⟨v, hv⟩ := h.works.awaited h.reachable hsub hr
  exact (h.reachable.trans h.works.reaches).noticed v _ hv

end Machine

end DeviceLock
