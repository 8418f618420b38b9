import DeviceLock.Proofs.Engine.Span

namespace DeviceLock

open Program

namespace Machine

variable {P : Action → Prop} {lane : Lane} {b m m₁ m' : Machine} {now : Timestamp} {a : Action}
  {j : lane.Work} {k l : List Deed}

theorem Goes.reaches (h : Goes lane P m₁ l m) : Reaches P m₁ m := by
  induction h with
  | refl => exact .refl _
  | own _ hp hs ih => exact ih.step hp hs
  | beside _ hp _ _ hs ih => exact ih.step hp hs

theorem Goes.fits {r : Request} {x : r.Answer} (h : Goes lane P m₁ l m)
    (hx : .request r x ∈ l) : ∃ n : Machine, Reaches P m₁ n ∧ (Deed.request r x).Fits n.core := by
  induction h with
  | refl => cases hx
  | own hg _ _ ih =>
    rcases List.mem_append.mp hx with hx | hx
    · exact ih hx
    · exact ⟨_, hg.reaches, log_fits hx⟩
  | beside _ _ _ _ _ ih => exact ih hx

theorem Goes.of_idle (h : Goes lane P m₁ l m) (hm : m₁.Idle lane) :
    l = [] ∧ m.Idle lane := by
  induction h with
  | refl => exact ⟨rfl, hm⟩
  | own _ _ hs ih =>
    obtain ⟨p, -, hp, -⟩ := resume_queue hs
    exact absurd ih.2 (not_idle_of_running hp)
  | beside _ _ ha hr hs ih => exact ⟨ih.1, (idle_iff_of_beside hs ha hr).mpr ih.2⟩

theorem Span.rest (h : Span lane P b j l m) :
    ∃ q, Walk (b.opening lane j) l q ∧ (∀ a next, q ≠ .act a next) ∧
      ∀ v x, (m.engine.queue lane).ended = (b.engine.queue lane).ended ++ [.done v x] →
        q = .done (.ok (v, x)) := by
  cases h.stage with
  | running hr hw he =>
    refine ⟨_, hw, by simp, fun v x hx => ?_⟩
    simp [he] at hx
  | ended hr hend he =>
    have hlast {e : Ending lane.Value (Except Fault Reply) Fault} {v : lane.Value}
        {x : Except Fault Reply}
        (he : (m.engine.queue lane).ended = (b.engine.queue lane).ended ++ [e])
        (hx : (m.engine.queue lane).ended = (b.engine.queue lane).ended ++ [.done v x]) :
        e = .done v x :=
      List.singleton_inj.mp (List.append_cancel_left (he.symm.trans hx))
    cases hend with
    | done h =>
      refine ⟨_, h, by simp, fun v x hx => ?_⟩
      cases hlast he hx
      rfl
    | failed h => exact ⟨_, h, by simp, fun v x hx => by cases hlast he hx⟩
    | panicked h => exact ⟨_, h, by simp, fun v x hx => by cases hlast he hx⟩

/-- The job of the lane that has started at `b` and has done `k` by `m` goes on, and has done `l`
more by `m'`. -/
structure Proceeds (lane : Lane) (b : Machine) (j : lane.Work) (k : List Deed) (m : Machine)
    (l : List Deed) (m' : Machine) : Prop where
  reachable : b.Reachable
  next : (b.engine.queue lane).next? = some j
  works : Works lane (fun _ => True) b k m
  goes : ∃ now c m₁ r, m.step? now (.resume (.job lane) c) = some m₁ ∧
    Goes lane (fun _ => True) m₁ r m' ∧ l = m.log now (.resume (.job lane) c) ++ r

theorem Proceeds.span (h : Proceeds lane b j k m l m') :
    Span lane (fun _ => True) b j (k ++ l) m' := by
  obtain ⟨now, c, m₁, r, hs, hg, rfl⟩ := h.goes
  have hw : Works lane (fun _ => True) b (k ++ (m.log now (.resume (.job lane) c) ++ r)) m' := by
    rw [← List.append_assoc]
    exact (Works.own h.works trivial hs).goes hg fun _ h => h
  exact hw.span_of_next h.reachable.usual h.next

theorem Proceeds.fits {r : Request} {x : r.Answer} (h : Proceeds lane b j k m l m')
    (hx : .request r x ∈ l) :
    ∃ n : Machine, Reaches (fun _ => True) m n ∧ (Deed.request r x).Fits n.core := by
  obtain ⟨now, c, m₁, t, hs, hg, rfl⟩ := h.goes
  rcases List.mem_append.mp hx with hx | hx
  · exact ⟨m, .refl m, log_fits hx⟩
  · obtain ⟨n, hn, hfits⟩ := hg.fits hx
    exact ⟨n, (Reaches.step (.refl m) trivial hs).trans hn, hfits⟩

theorem Proceeds.first (h : Proceeds lane b j k m l m') :
    (∃ r x t, l = .request r x :: t ∧ (Deed.request r x).Fits m.core) ∨ l = [] ∧ m'.Idle lane := by
  obtain ⟨now, c, m₁, t, hs, hg, rfl⟩ := h.goes
  obtain ⟨p, m₂, progress, hp, hr, rfl⟩ := resume_cases hs
  obtain ⟨r, next, rfl, ⟨rfl, hl, -⟩ | ⟨x, m₃, hx, -, hl⟩⟩ := resume_after hr
  · have hidle : (m₂.settle lane .panicked).Idle lane := by
      simp [Idle, settle, JobQueue.settle, JobQueue.finish]
    obtain ⟨rfl, hm'⟩ := hg.of_idle hidle
    exact .inr ⟨by simp only [log, hp, hl, List.append_nil], hm'⟩
  · refine .inl ⟨r, x, m₃.deeds now (next x) ++ t, ?_, (respond_core hx).1⟩
    simp only [log, hp, hl, List.cons_append]

theorem Proceeds.busy (h : Proceeds lane b j k m l m') : ¬ m.Idle lane := by
  obtain ⟨now, c, m₁, t, hs, -⟩ := h.goes
  obtain ⟨p, -, hp, -⟩ := resume_queue hs
  exact not_idle_of_running hp

end Machine

end DeviceLock
