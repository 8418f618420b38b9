import DeviceLock.Proofs.Engine.Run

namespace DeviceLock

namespace JobQueue

variable {σ ι κ ρ ε : Type}

structure Ordered (q : JobQueue σ ι κ ρ ε) : Prop where
  live : q.closed = false
  le : q.ended.length ≤ q.submitted.length
  lt : q.running.isSome → q.ended.length < q.submitted.length

theorem Ordered.initial (v : σ) : ({ value := v } : JobQueue σ ι κ ρ ε).Ordered where
  live := rfl
  le := Nat.le_refl _
  lt := by simp

theorem Ordered.add {q : JobQueue σ ι κ ρ ε} (h : q.Ordered) (jobs : List ι) :
    (q.add jobs).Ordered where
  live := h.live
  le := by
    simp only [JobQueue.add, List.length_append]
    exact Nat.le_add_right_of_le h.le
  lt := fun hr => by
    simp only [JobQueue.add, List.length_append]
    exact Nat.lt_add_right _ (h.lt hr)

theorem Ordered.settle {σ ι : Type} {q : Queue σ ι} (h : q.Ordered)
    (hlt : q.ended.length < q.submitted.length)
    (progress : Progress (σ × Except Fault Reply)) : (q.settle progress).Ordered := by
  have hfinish (e : Ending σ (Except Fault Reply) Fault) : (q.finish e).Ordered :=
    ⟨h.live, by simpa [finish] using Nat.succ_le_of_lt hlt, by simp [finish]⟩
  rcases progress with rest | (f | ⟨v, a⟩) | _
  · exact ⟨h.live, h.le, fun _ => hlt⟩
  · exact hfinish _
  · exact hfinish _
  · exact hfinish _

theorem settle_ended {σ ι : Type} (q : Queue σ ι)
    (progress : Progress (σ × Except Fault Reply)) : q.ended <+: (q.settle progress).ended := by
  rcases progress with rest | (f | ⟨v, a⟩) | _
  · exact List.prefix_rfl
  · exact List.prefix_append _ _
  · exact List.prefix_append _ _
  · exact List.prefix_append _ _

def outcomes (q : JobQueue σ ι κ ρ ε) : List (ι × Ending σ ρ ε) := q.submitted.zip q.ended

theorem outcomes_of_ended {q q' : JobQueue σ ι κ ρ ε} {es : List (Ending σ ρ ε)} (h : q.Ordered)
    (hs : q.submitted <+: q'.submitted) (he : q'.ended = q.ended ++ es) :
    q'.outcomes = q.outcomes ++ (q'.submitted.drop q.ended.length).zip es := by
  obtain ⟨jobs, hjobs⟩ := hs
  have htake : q'.submitted.take q.ended.length = q.submitted.take q.ended.length := by
    rw [← hjobs, List.take_append_of_le_length h.le]
  have hlen : (q.submitted.take q.ended.length).length = q.ended.length := by
    rw [List.length_take, Nat.min_eq_left h.le]
  calc q'.submitted.zip q'.ended
      = (q'.submitted.take q.ended.length ++ q'.submitted.drop q.ended.length).zip
          (q.ended ++ es) := by rw [List.take_append_drop, he]
    _ = (q.submitted.take q.ended.length).zip q.ended ++
          (q'.submitted.drop q.ended.length).zip es := by rw [htake, List.zip_append hlen]
    _ = q.outcomes ++ (q'.submitted.drop q.ended.length).zip es := by
      congr 1
      have : (q.submitted.take q.ended.length ++ q.submitted.drop q.ended.length).zip
          (q.ended ++ []) = (q.submitted.take q.ended.length).zip q.ended ++
            (q.submitted.drop q.ended.length).zip [] := List.zip_append hlen
      rw [List.take_append_drop, List.append_nil, List.zip_nil_right, List.append_nil] at this
      exact this.symm

theorem outcomes_same {q q' : JobQueue σ ι κ ρ ε} (h : q.Ordered)
    (hs : q.submitted <+: q'.submitted) (he : q'.ended = q.ended) :
    q'.outcomes = q.outcomes := by
  have := outcomes_of_ended h hs (show q'.ended = q.ended ++ [] by rw [he, List.append_nil])
  rwa [List.zip_nil_right, List.append_nil] at this

theorem outcomes_next {q q' : JobQueue σ ι κ ρ ε} {e : Ending σ ρ ε} {j : ι} (h : q.Ordered)
    (hs : q.submitted <+: q'.submitted) (hj : q.submitted[q.ended.length]? = some j)
    (he : q'.ended = q.ended ++ [e]) : q'.outcomes = q.outcomes ++ [(j, e)] := by
  rw [outcomes_of_ended h hs he]
  have hj' := getElem?_of_grows hs hj
  obtain ⟨hlt, hx⟩ := List.getElem?_eq_some_iff.mp hj'
  rw [List.drop_eq_getElem_cons hlt, hx, List.zip_cons_cons, List.zip_nil_right]

theorem mem_outcomes {q : JobQueue σ ι κ ρ ε} {i : Nat} {j : ι} {e : Ending σ ρ ε}
    (hj : q.submitted[i]? = some j) (he : q.ended[i]? = some e) : (j, e) ∈ q.outcomes := by
  apply List.mem_of_getElem? (i := i)
  rw [outcomes, List.getElem?_zip_eq_some]
  exact ⟨hj, he⟩

theorem outcomes_subset {q q' : JobQueue σ ι κ ρ ε} (hs : q.submitted <+: q'.submitted)
    (he : q.ended <+: q'.ended) : q.outcomes ⊆ q'.outcomes := by
  rintro ⟨j, e⟩ h
  obtain ⟨i, hi⟩ := List.getElem?_of_mem h
  obtain ⟨hj, he'⟩ := List.getElem?_zip_eq_some.mp hi
  exact mem_outcomes (getElem?_of_grows hs hj) (getElem?_of_grows he he')

theorem lt_of_next {q : JobQueue σ ι κ ρ ε} {j : ι} (h : q.next? = some j) :
    q.submitted[q.ended.length]? = some j ∧ q.ended.length < q.submitted.length := by
  unfold next? at h
  split at h
  · cases h
  · exact ⟨h, (List.getElem?_eq_some_iff.mp h).1⟩

end JobQueue

namespace Machine

variable {P : Action → Prop} {m m' : Machine} {now : Timestamp} {a : Action}

def Ordered (m : Machine) : Prop := ∀ lane, (m.engine.queue lane).Ordered

theorem Fresh.ordered {d : Document} (h : Fresh d m) : m.Ordered := by
  intro lane
  rw [h.engine.1]
  cases lane <;> exact .initial _

theorem Ordered.step (hm : m.Ordered) (h : m.step? now a = some m') : m'.Ordered := by
  intro lane
  by_cases hr : a = .restart
  · subst hr
    obtain rfl := restart_cases h
    cases lane <;> exact .initial _
  by_cases ha : a.lane? = some lane
  · rcases Action.eq_of_lane? ha with rfl | ⟨c, rfl⟩
    · obtain ⟨j, progress, hj, -, hq⟩ := start_queue h
      rw [hq]
      apply ((hm lane).add _).settle
      simp only [JobQueue.add, List.length_append]
      exact Nat.lt_add_right _ (JobQueue.lt_of_next hj).2
    · obtain ⟨p, progress, hp, -, hq⟩ := resume_queue h
      rw [hq]
      apply ((hm lane).add _).settle
      exact ((hm lane).add _).lt (by simp [hp])
  · rw [(step_frame h hr).queue lane ha]
    exact (hm lane).add _

theorem Reaches.ordered (h : Reaches P m m') (hm : m.Ordered) : m'.Ordered := by
  induction h with
  | refl => exact hm
  | step _ _ hs ih => exact ih.step hs

theorem Reachable.ordered (h : m.Reachable) : m.Ordered := by
  obtain ⟨d, m₀, hf, hr⟩ := h
  exact hr.ordered hf.ordered

theorem Quiescent.all_ended (h : m.Quiescent) (hm : m.Ordered) (lane : Lane) :
    (m.engine.queue lane).ended.length = (m.engine.queue lane).submitted.length := by
  apply Nat.le_antisymm (hm lane).le
  have hnext := h.next lane
  have hidle : (m.engine.queue lane).running = none := h.idle lane
  unfold JobQueue.next? at hnext
  rw [if_neg (by simp [(hm lane).live, hidle])] at hnext
  exact List.getElem?_eq_none_iff.mp hnext

theorem step_submitted (h : m.step? now a = some m') (hr : a ≠ .restart) (lane : Lane) :
    (m'.engine.queue lane).submitted =
        (m.engine.queue lane).submitted ++ (m.log now a).flatMap (Deed.submitted lane) ∧
      (m.engine.queue lane).ended <+: (m'.engine.queue lane).ended := by
  have hadd (jobs : List lane.Work) (progress : Progress (lane.Value × Except Fault Reply)) :
      (((m.engine.queue lane).add jobs).settle progress).submitted =
          (m.engine.queue lane).submitted ++ jobs ∧
        (m.engine.queue lane).ended <+:
          (((m.engine.queue lane).add jobs).settle progress).ended :=
    ⟨JobQueue.settle_submitted _ _, JobQueue.settle_ended ((m.engine.queue lane).add jobs) progress⟩
  by_cases ha : a.lane? = some lane
  · rcases Action.eq_of_lane? ha with rfl | ⟨c, rfl⟩
    · obtain ⟨j, progress, -, -, hq⟩ := start_queue h
      rw [hq]
      exact hadd _ _
    · obtain ⟨p, progress, -, -, hq⟩ := resume_queue h
      rw [hq]
      exact hadd _ _
  · rw [(step_frame h hr).queue lane ha]
    exact ⟨rfl, List.prefix_rfl⟩

theorem step_grows (h : m.step? now a = some m') (hr : a ≠ .restart) (lane : Lane) :
    (m.engine.queue lane).submitted <+: (m'.engine.queue lane).submitted ∧
      (m.engine.queue lane).ended <+: (m'.engine.queue lane).ended := by
  obtain ⟨hs, he⟩ := step_submitted h hr lane
  exact ⟨⟨_, hs.symm⟩, he⟩

theorem Reaches.grows (h : Reaches P m m') (hP : ¬ P .restart) (lane : Lane) :
    (m.engine.queue lane).submitted <+: (m'.engine.queue lane).submitted ∧
      (m.engine.queue lane).ended <+: (m'.engine.queue lane).ended := by
  induction h with
  | refl => exact ⟨List.prefix_rfl, List.prefix_rfl⟩
  | step _ ha hs ih =>
    obtain ⟨hsub, hend⟩ := step_grows hs (fun h => hP (h ▸ ha)) lane
    exact ⟨ih.1.trans hsub, ih.2.trans hend⟩

end Machine

end DeviceLock
