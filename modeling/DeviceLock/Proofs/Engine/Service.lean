import DeviceLock.Proofs.Engine.Completion
import DeviceLock.Proofs.Engine.View

namespace DeviceLock

open Program

namespace Action

/-- No restart, and no collaborator fails or panics. -/
def Willing : Action → Prop
  | resume _ c => c.Willing
  | callbackEnds _ _ result => result = .returned true
  | call _ | drop _ | start _ | activation _ => True
  | restart => False

instance : DecidablePred Willing
  | resume _ c => inferInstanceAs (Decidable c.Willing)
  | callbackEnds _ _ result => inferInstanceAs (Decidable (result = .returned true))
  | call _ | drop _ | start _ | activation _ => inferInstanceAs (Decidable True)
  | restart => inferInstanceAs (Decidable False)

theorem Serves.willing {a : Action} (h : a.Serves) : a.Willing := by
  cases a <;> first | exact h | trivial

theorem not_willing_restart : ¬ restart.Willing := id

end Action

namespace Machine

variable {lane : Lane} {d : Document} {m₀ b m m₁ m' : Machine} {now : Timestamp} {a : Action}
  {op : Operation} {l : List Deed}

theorem log_served (hm : m.Applied) (ha : a.Willing) : ∀ d ∈ m.log now a, d.Served := by
  intro d hd
  cases d with
  | act b x => trivial
  | request r x =>
    obtain ⟨t, c, m₁, rfl, hx⟩ := log_respond hd
    exact respond_served hm ha hx

theorem Reaches.applied (h : Reaches Action.Willing m m') (hm : m.Applied) : m'.Applied := by
  induction h with
  | refl => exact hm
  | step _ ha hs ih =>
    refine ih.step hs (fun n k result he => ?_) fun he => ?_
    · subst he
      exact ha
    · subst he
      exact ha

theorem Works.served (h : Works lane Action.Willing b l m) (hb : b.Applied) :
    ∀ d ∈ l, d.Served := by
  induction h with
  | start hp hs => exact log_served hb hp
  | own hw hp hs ih =>
    intro d hd
    exact (List.mem_append.mp hd).elim (ih d) (log_served (hw.reaches.applied hb) hp d)
  | beside _ _ _ _ _ ih => exact ih

theorem Attends.served (h : Attends Action.Willing b op l m) (hb : b.Applied) :
    ∀ d ∈ l, d.Served := by
  induction h with
  | call hp hs => exact log_served hb hp
  | own hw hp hs ih =>
    intro d hd
    exact (List.mem_append.mp hd).elim (ih d) (log_served (hw.reaches.applied hb) hp d)
  | beside _ _ _ _ _ ih => exact ih

structure Ran (m₀ : Machine) (lane : Lane) (i : Nat) (w : lane.Work) (b : Machine) (l : List Deed)
    (m₁ m : Machine) : Prop where
  before : Reaches Action.Willing m₀ b
  next : (b.engine.queue lane).next? = some w
  place : (b.engine.queue lane).ended.length = i
  works : Works lane Action.Willing b l m₁
  ended : ∃ e, (m₁.engine.queue lane).ended = (b.engine.queue lane).ended ++ [e]
  after : Reaches Action.Willing m₁ m

theorem Reaches.ran {i : Nat} (h : Reaches Action.Willing m₀ m) (hm₀ : m₀.Follows .usual)
    (hidle : m₀.Idle lane) (hle : (m₀.engine.queue lane).ended.length ≤ i)
    (hi : i < (m.engine.queue lane).ended.length) : ∃ w b l m₁, Ran m₀ lane i w b l m₁ m := by
  induction h with
  | refl => omega
  | step h ha hs ih =>
    rename_i m m' now a
    by_cases hold : i < (m.engine.queue lane).ended.length
    · obtain ⟨w, b, l, m₁, hran⟩ := ih hold
      exact ⟨w, b, l, m₁, { hran with after := hran.after.step ha hs }⟩
    have hr : a ≠ .restart := by
      rintro rfl
      exact ha
    -- The job has ended in this step, so the step is one of the worker.
    have hlane : a.lane? = some lane := by
      apply Classical.byContradiction
      intro hne
      rw [(step_frame hs hr).ended hne] at hi
      exact hold hi
    obtain ⟨b, k, hb, hw, hsame⟩ := h.works_step hidle hm₀ ha hlane hs
    obtain ⟨w, hnext, hspan⟩ := hw.span (hb.usual hm₀)
    cases hspan.stage with
    | running _ _ he =>
      rw [he, hsame] at hi
      exact absurd hi hold
    | @ended e _ _ he =>
      rw [he, hsame, List.length_append, List.length_singleton] at hi
      exact ⟨w, b, _, m', hb, hnext, by rw [hsame]; omega, hw, ⟨e, he⟩, .refl m'⟩

section

variable {i : Nat} {w : lane.Work} {e : Ending lane.Value (Except Fault Reply) Fault}

theorem Ran.ended_eq (h : Ran m₀ lane i w b l m₁ m)
    (he : (m.engine.queue lane).ended[i]? = some e) :
    (m₁.engine.queue lane).ended = (b.engine.queue lane).ended ++ [e] := by
  obtain ⟨f, hf⟩ := h.ended
  have hgrows := (h.after.grows Action.not_willing_restart lane).2
  have hplace : (m₁.engine.queue lane).ended[i]? = some f := by
    rw [hf, ← h.place]
    exact List.getElem?_concat_length
  rw [hf, Option.some.inj (he.symm.trans (JobQueue.getElem?_of_grows hgrows hplace))]

theorem Ran.span (h : Ran m₀ lane i w b l m₁ m) (hm₀ : m₀.Follows .usual) :
    Span lane Action.Willing b w l m₁ :=
  h.works.span_of_next (h.before.usual hm₀) h.next

theorem Ran.keeps (h : Ran m₀ lane i w b l m₁ m) :
    (m.engine.queue lane).submitted[i]? = some w := by
  have hreaches := h.works.reaches.trans h.after
  rw [← h.place]
  exact JobQueue.getElem?_of_grows (hreaches.grows Action.not_willing_restart lane).1
    (JobQueue.lt_of_next h.next).1

theorem Ran.ends (h : Ran m₀ lane i w b l m₁ m) (hm₀ : m₀.Follows .usual)
    (he : (m.engine.queue lane).ended[i]? = some e) :
    ∃ r, Ends (b.opening lane w) l r ∧ e.answer.flatten = r.bind Prod.snd := by
  cases (h.span hm₀).ending (h.ended_eq he) with
  | done hr => exact ⟨_, hr, rfl⟩
  | failed hr => exact ⟨_, hr, rfl⟩
  | panicked _ hc hn => exact absurd (Conduct.Willing.calm hc) hn

end

theorem Reaches.answered {t : Ticket} {j : Job} {x : Except Fault Reply}
    (h : Reaches Action.Willing m₀ m) (hf : Fresh d m₀) (hk : m.engine.Keeps t j)
    (hx : m.engine.answer? t = some x) :
    ∃ w b l m₁ e, t.lane.job w = j ∧ Ran m₀ t.lane t.index w b l m₁ m ∧
      (m.engine.queue t.lane).ended[t.index]? = some e ∧ e.answer.flatten = x := by
  have hlive := (h.ordered hf.ordered t.lane).live
  obtain ⟨e, he, hx⟩ := (Engine.answer?_eq_some_iff hlive).mp hx
  have hnone : (m₀.engine.queue t.lane).ended = [] := by
    rw [hf.engine.1]
    cases t.lane <;> rfl
  obtain ⟨w, b, l, m₁, hran⟩ := h.ran (hf.follows _) (hf.idle _) (by simp [hnone])
    (List.getElem?_eq_some_iff.mp he).1
  obtain ⟨w', hjob, hplace⟩ := hk
  obtain rfl := Option.some.inj (hran.keeps.symm.trans hplace)
  exact ⟨w, b, l, m₁, e, hjob, hran, he, hx⟩

theorem Ran.fate {i : Nat} {j : PolicyJob} {e : Ending (Option LockMode) (Except Fault Reply) Fault}
    (h : Ran m₀ .policy i j b l m₁ m) (hf : Fresh d m₀)
    (he : m.engine.policy.ended[i]? = some e) : j.Fate b.core.position e.answer.flatten := by
  obtain ⟨r, hr, hx⟩ := h.ends (hf.follows _) he
  have hserved := h.works.served (h.before.applied hf.applied)
  obtain ⟨v, x, rfl, hfate⟩ := PolicyJob.fate hr hserved fun p k hl => by
    have hstory := (h.span (hf.follows _)).story
    rw [hl] at hstory
    obtain ⟨c, hs, hfits, -⟩ := Lane.Story.head hstory
    have hp : p = c.position := hfits
    exact hp.trans hs.1
  rwa [hx]

end Machine

end DeviceLock
