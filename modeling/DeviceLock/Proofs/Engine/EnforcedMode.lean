import DeviceLock.Proofs.Engine.Span
import DeviceLock.Proofs.Program.Recording
import Mathlib.Data.List.Induction

namespace DeviceLock

open Program

structure EndedJob where
  job : PolicyJob
  deeds : List Deed
  ending : Ending (Option LockMode) (Except Fault Reply) Fault

namespace EndedJob

variable {config : EngineConfig} {cached : Option LockMode} {x y : EndedJob} {mode : LockMode}
  {answer : Except Fault Reply} {hs pre mid post : List EndedJob}

def Records (config : EngineConfig) (x : EndedJob) (mode : LockMode) (answer : Except Fault Reply) :
    Prop :=
  x.job.Records config x.deeds mode answer

def Ran (config : EngineConfig) (cached : Option LockMode) (x : EndedJob) : Prop :=
  Ending.Of (fun _ => True) (x.job.program config cached) x.deeds x.ending

def Enforces (x : EndedJob) : Prop :=
  Ending.Of (fun _ => True) (Program.enforce false >>= recorded) x.deeds x.ending

def Returns (x : EndedJob) (mode : LockMode) : Prop :=
  x.deeds = [] ∧ x.ending = .done (some mode) (.ok (.mode mode))

/-- The mode is the one of the last job that has recorded one, and no invalidation came after it. -/
def Recorded (config : EngineConfig) (hs : List EndedJob) (mode : LockMode) : Prop :=
  ∃ pre x post, hs = pre ++ x :: post ∧ (∃ answer, x.Records config mode answer) ∧
    ∀ y ∈ post, y.job ≠ .invalidate ∧ ∀ m a, ¬ y.Records config m a

def Remembers (config : EngineConfig) (hs : List EndedJob) (cached : Option LockMode) : Prop :=
  ∀ mode, cached = some mode ↔ Recorded config hs mode

theorem cases_of_append_singleton (h : hs ++ [x] = pre ++ y :: post) :
    (post = [] ∧ hs = pre ∧ x = y) ∨ ∃ mid, post = mid ++ [x] ∧ hs = pre ++ y :: mid := by
  rcases List.eq_nil_or_concat post with rfl | ⟨mid, z, rfl⟩
  · obtain ⟨rfl, hx⟩ := List.append_inj' h rfl
    exact .inl ⟨rfl, rfl, List.singleton_inj.mp hx⟩
  · rw [List.concat_eq_append, ← List.cons_append, ← List.append_assoc] at h
    obtain ⟨rfl, hx⟩ := List.append_inj' h rfl
    exact .inr ⟨mid, by rw [List.singleton_inj.mp hx, List.concat_eq_append], rfl⟩

theorem recorded_append :
    Recorded config (hs ++ [x]) mode ↔ (∃ answer, x.Records config mode answer) ∨
      Recorded config hs mode ∧ x.job ≠ .invalidate ∧ ∀ m a, ¬ x.Records config m a := by
  constructor
  · rintro ⟨pre, y, post, he, hy, hpost⟩
    rcases cases_of_append_singleton he with ⟨rfl, rfl, rfl⟩ | ⟨mid, rfl, rfl⟩
    · exact .inl hy
    · obtain ⟨hmid, hlast⟩ := List.forall_mem_append.mp hpost
      exact .inr ⟨⟨pre, y, mid, rfl, hy, hmid⟩, hlast x List.mem_cons_self⟩
  · rintro (hx | ⟨⟨pre, y, post, rfl, hy, hpost⟩, hx⟩)
    · exact ⟨hs, x, [], rfl, hx, by simp⟩
    · refine ⟨pre, y, post ++ [x], by simp, hy, List.forall_mem_append.mpr ⟨hpost, ?_⟩⟩
      exact fun z hz => List.mem_singleton.mp hz ▸ hx

theorem Ran.value_of_read {v : LockMode} (h : x.Ran config (some v)) (hj : x.job = .mode) :
    x.Returns v := by
  unfold Ran at h
  rw [hj] at h
  cases hx : x.ending with
  | done w a =>
    rw [hx] at h
    cases h with
    | done h =>
      obtain ⟨hl, hr⟩ := ends_pure.mp h
      cases hr
      exact ⟨hl, hx⟩
  | failed f =>
    rw [hx] at h
    cases h with
    | failed h => cases (ends_pure.mp h).2
  | panicked =>
    rw [hx] at h
    cases h with
    | panicked h => cases (walk_done.mp h).2

theorem Ran.records (h : x.Ran config cached) (hr : x.Records config mode answer) :
    x.ending = .done (some mode) answer := by
  have hread (hj : x.job = .mode) : cached = none := by
    cases hc : cached with
    | none => rfl
    | some v =>
      subst hc
      unfold Records at hr
      rw [hj, (h.value_of_read hj).1] at hr
      cases hr with
      | read h => cases (ends_enforce_head h).choose_spec.choose_spec
  have hends := PolicyJob.Records.ends hr hread
  unfold Ran at h
  generalize x.ending = e at h
  cases h with
  | done h => cases ends_unique h hends; rfl
  | failed h => cases ends_unique h hends
  | panicked h => cases Walk.unique h hends

theorem Ran.kept (h : x.Ran config cached) (hj : x.job ≠ .invalidate)
    (hr : ∀ mode answer, ¬ x.Records config mode answer) : x.ending.value cached = cached := by
  unfold Ran at h
  cases hx : x.ending with
  | done v a =>
    rw [hx] at h
    cases h with
    | done h =>
      rcases PolicyJob.records_or_keeps h with ⟨mode, hmode, -⟩ | hv | hi
      · exact absurd hmode (hr mode a)
      · exact hv
      · exact absurd hi hj
  | failed f => rfl
  | panicked => rfl

theorem Ran.invalidated (h : x.Ran config cached) (hj : x.job = .invalidate) :
    x.ending = .done none (.ok .unit) := by
  unfold Ran at h
  rw [hj] at h
  generalize x.ending = e at h
  cases h with
  | done h => cases (ends_pure.mp h).2; rfl
  | failed h => cases (ends_pure.mp h).2
  | panicked h => cases (walk_done.mp h).2

theorem Remembers.append (h : Remembers config hs cached) (hx : x.Ran config cached) :
    Remembers config (hs ++ [x]) (x.ending.value cached) := by
  intro mode
  rw [recorded_append]
  by_cases hr : ∃ mode answer, x.Records config mode answer
  · obtain ⟨m, answer, hm⟩ := hr
    rw [hx.records hm]
    constructor
    · intro he
      obtain rfl := Option.some.inj he
      exact .inl ⟨answer, hm⟩
    · rintro (⟨a, ha⟩ | ⟨-, -, hn⟩)
      · cases (hx.records hm).symm.trans (hx.records ha)
        rfl
      · exact absurd hm (hn m answer)
  have hr : ∀ mode answer, ¬ x.Records config mode answer :=
    fun mode answer h => hr ⟨mode, answer, h⟩
  by_cases hj : x.job = .invalidate
  · rw [hx.invalidated hj]
    constructor
    · intro he
      cases he
    · rintro (⟨a, ha⟩ | ⟨-, hn, -⟩)
      · exact absurd ha (hr mode a)
      · exact absurd hj hn
  · rw [hx.kept hj hr, h mode]
    constructor
    · exact fun hold => .inr ⟨hold, hj, hr⟩
    · rintro (⟨a, ha⟩ | ⟨hold, -⟩)
      · exact absurd ha (hr mode a)
      · exact hold

theorem Ran.records_of_passes (h : x.Ran config none) (hj : x.job = .mode)
    (hp : Passes x.deeds) (hn : x.ending ≠ .panicked) :
    ∃ mode, x.Records config mode (.ok (.mode mode)) := by
  unfold Ran at h
  rw [hj] at h
  have hends {r : Except Fault (Option LockMode × Except Fault Reply)}
      (h : Ends (Program.enforce false >>= recorded) x.deeds r) :
      ∃ mode, x.Records config mode (.ok (.mode mode)) := by
    rcases ends_recorded.mp h with ⟨e, he, -⟩ | ⟨mode, hmode, -⟩
    · exact absurd hp (not_passes_of_error he)
    · refine ⟨mode, ?_⟩
      unfold Records
      rw [hj]
      exact .read hmode
  generalize x.ending = e at h hn
  cases h with
  | done h => exact hends h
  | failed h => exact hends h
  | panicked => exact absurd rfl hn

def Linked (config : EngineConfig) (hs : List EndedJob) : Prop :=
  ∀ pre x post, hs = pre ++ x :: post → ∃ cached, Remembers config pre cached ∧ x.Ran config cached

theorem Linked.append (h : Linked config hs) (hv : Remembers config hs cached)
    (hx : x.Ran config cached) : Linked config (hs ++ [x]) := by
  intro pre y post he
  rcases cases_of_append_singleton he with ⟨rfl, rfl, rfl⟩ | ⟨mid, rfl, rfl⟩
  · exact ⟨cached, hv, hx⟩
  · exact h pre y mid rfl

theorem Linked.take (h : Linked config (hs ++ post)) : Linked config hs := by
  intro pre y mid he
  exact h pre y (mid ++ post) (by rw [he, List.append_assoc, List.cons_append])

theorem Linked.reads (h : Linked config hs) (he : hs = pre ++ x :: post) (hj : x.job = .mode) :
    (∀ mode, Recorded config pre mode → x.Returns mode) ∧
      ((∀ mode, ¬ Recorded config pre mode) → x.Enforces) := by
  obtain ⟨cached, hv, hx⟩ := h pre x post he
  constructor
  · intro mode hr
    obtain rfl := (hv mode).mpr hr
    exact hx.value_of_read hj
  · intro hn
    have hnone : cached = none := Option.eq_none_iff_forall_ne_some.mpr fun mode he =>
      hn mode ((hv mode).mp he)
    unfold Ran at hx
    rw [hj, hnone] at hx
    exact hx

theorem Recorded.reads (hr : Recorded config pre mode) (h : Linked config (pre ++ mid))
    (hm : ∀ z ∈ mid, z.job = .mode) : Recorded config (pre ++ mid) mode := by
  induction mid using List.reverseRecOn with
  | nil => rwa [List.append_nil]
  | append_singleton mid z ih =>
    rw [← List.append_assoc] at h ⊢
    obtain ⟨hm, hz⟩ := List.forall_mem_append.mp hm
    have hold := ih h.take hm
    have hz := hz z List.mem_cons_self
    obtain ⟨cached, hv, hx⟩ := h (pre ++ mid) z [] rfl
    have hreturns := (h.reads rfl hz).1 mode hold
    have hv' := hv.append hx
    rw [hreturns.2] at hv'
    exact (hv' mode).mp rfl

theorem Linked.reads_in_a_row (h : Linked config hs) (he : hs = pre ++ x :: (mid ++ y :: post))
    (hx : x.job = .mode) (hmid : ∀ z ∈ mid, z.job = .mode) (hy : y.job = .mode)
    (hp : Passes x.deeds) (hn : x.ending ≠ .panicked) :
    ∃ mode, x.ending = .done (some mode) (.ok (.mode mode)) ∧ y.Returns mode := by
  obtain ⟨cached, hv, hran⟩ := h pre x _ he
  have hnone : cached = none := by
    cases hc : cached with
    | none => rfl
    | some v =>
      subst hc
      unfold Passes at hp
      rw [(hran.value_of_read hx).1] at hp
      cases hp
  subst hnone
  obtain ⟨mode, hr⟩ := hran.records_of_passes hx hp hn
  have hrecorded : Recorded config (pre ++ [x]) mode := recorded_append.mpr (.inl ⟨_, hr⟩)
  have hcut : hs = pre ++ [x] ++ mid ++ y :: post := by rw [he]; simp
  have hbefore := hrecorded.reads (hcut ▸ h).take hmid
  exact ⟨mode, hran.records hr, (h.reads hcut hy).1 mode hbefore⟩

end EndedJob

open EndedJob

namespace Machine

variable {d : Document} {m₀ b m m' : Machine} {hs : List EndedJob}

inductive History (m₀ : Machine) : List EndedJob → Machine → Prop
  | start : History m₀ [] m₀
  | restart {m : Machine} (h : Reaches (fun _ => True) m₀ m) :
      History m₀ [] { m with engine := m.engine.renewed }
  | beside {hs : List EndedJob} {m m' : Machine} {now : Timestamp} {a : Action}
      (h : History m₀ hs m) (ha : a.lane? ≠ some .policy) (hr : a ≠ .restart)
      (hstep : m.step? now a = some m') : History m₀ hs m'
  | job {hs : List EndedJob} {b m : Machine} {x : EndedJob} (h : History m₀ hs b)
      (hj : b.engine.policy.next? = some x.job)
      (hw : Works .policy (fun _ => True) b x.deeds m) (hidle : m.Idle .policy)
      (he : m.engine.policy.ended = b.engine.policy.ended ++ [x.ending]) :
      History m₀ (hs ++ [x]) m

theorem Reaches.history (h : Reaches (fun _ => True) m₀ m) (hf : Fresh d m₀)
    (hidle : m.Idle .policy) : ∃ hs, History m₀ hs m := by
  have hcases := h.boundary_or_works (I := fun m => ∃ hs, History m₀ hs m)
    ⟨hf.idle .policy, [], .start⟩ (fun m hm _ => ⟨[], .restart hm⟩)
    (fun m now a m' _ _ ⟨hs, h⟩ _ ha hr hstep => ⟨hs, .beside h ha hr hstep⟩)
    (fun b l m hb _ ⟨hs, h⟩ hw hidle => ?_)
  · rcases hcases with ⟨-, hm⟩ | ⟨hn, -⟩
    · exact hm
    · exact absurd hidle hn
  · obtain ⟨j, hj, hspan⟩ := hw.span (hb.usual (hf.follows _))
    obtain ⟨e, -, he, -⟩ := hspan.exists_ending hidle
    exact ⟨_, .job (x := ⟨j, l, e⟩) h hj hw hidle he⟩

theorem History.reaches (h : History m₀ hs m) : Reaches (fun _ => True) m₀ m := by
  induction h with
  | start => exact .refl _
  | @restart m h =>
    have hs : m.step? epoch .restart = some { m with engine := m.engine.renewed } := rfl
    exact h.step trivial hs
  | beside _ _ _ hs ih => exact ih.step trivial hs
  | job _ _ hw _ _ ih => exact ih.trans hw.reaches

theorem Reaches.config_eq (h : Reaches (fun _ => True) m₀ m) :
    m.engine.config = m₀.engine.config := by
  induction h with
  | refl => rfl
  | @step m₁ m' now a _ _ hs ih =>
    by_cases hr : a = .restart
    · subst hr
      obtain rfl := restart_cases hs
      exact ih
    · exact (step_frame hs hr).config.trans ih

theorem History.remembers (h : History m₀ hs m) (hf : Fresh d m₀) :
    Remembers m₀.engine.config hs m.engine.policy.value ∧ Linked m₀.engine.config hs ∧
      hs.map (fun x => (x.job, x.ending)) = m.engine.policy.outcomes := by
  have hnothing : Remembers m₀.engine.config [] none := by
    intro mode
    constructor
    · intro h
      cases h
    · rintro ⟨pre, x, post, he, -⟩
      simp at he
  have hunlinked : Linked m₀.engine.config [] := by
    intro pre x post he
    simp at he
  induction h with
  | start =>
    rw [hf.engine.1]
    exact ⟨hnothing, hunlinked, rfl⟩
  | restart => exact ⟨hnothing, hunlinked, rfl⟩
  | @beside hs m m' now a h ha hr hstep ih =>
    obtain ⟨hv, hlinked, houtcomes⟩ := ih
    have hq : m'.engine.policy = m.engine.policy.add _ := (step_frame hstep hr).queue .policy ha
    have hsame : m'.engine.policy.outcomes = m.engine.policy.outcomes := by
      refine JobQueue.outcomes_same (h.reaches.ordered hf.ordered .policy) ?_ ?_
      · rw [hq]
        exact List.prefix_append _ _
      · rw [hq]
        rfl
    refine ⟨?_, hlinked, houtcomes.trans hsame.symm⟩
    rw [hq]
    exact hv
  | @job hs b m x h hj hw hidle he ih =>
    obtain ⟨hv, hlinked, houtcomes⟩ := ih
    have hspan := hw.span_of_next (h.reaches.usual (hf.follows _)) hj
    have hran : x.Ran m₀.engine.config b.engine.policy.value := by
      rw [← h.reaches.config_eq]
      exact hspan.ending he
    have hvalue : m.engine.policy.value = x.ending.value b.engine.policy.value := hspan.value he
    refine ⟨hvalue ▸ hv.append hran, hlinked.append hv hran, ?_⟩
    rw [List.map_append, houtcomes]
    exact (hspan.outcomes (h.reaches.ordered hf.ordered) hj he).symm

/-- At every boundary of policy jobs the cached mode is the one of the last job since the engine
started that has recorded one, if no invalidation has ended after it, and there is none otherwise. A
job that records a mode leaves it, even if it answers an error. A read returns the mode that is
cached and does nothing, and enforces if there is none. Of reads in a row, all that come after one
whose pass has succeeded do nothing and return its mode, unless that one has panicked. -/
theorem enforcement_on_read (hf : Fresh d m₀) (h : Reaches (fun _ => True) m₀ m) :
    (m.Idle .policy → ∃ hs, History m₀ hs m) ∧ ∀ hs, History m₀ hs m →
      hs.map (fun x => (x.job, x.ending)) = m.engine.policy.outcomes ∧
      (∀ mode, m.engine.policy.value = some mode ↔ Recorded m₀.engine.config hs mode) ∧
      (∀ pre x post, hs = pre ++ x :: post →
        (∀ mode answer, x.Records m₀.engine.config mode answer →
          x.ending = .done (some mode) answer) ∧
        (x.job = .mode → (∀ mode, Recorded m₀.engine.config pre mode → x.Returns mode) ∧
          ((∀ mode, ¬ Recorded m₀.engine.config pre mode) → x.Enforces))) ∧
      ∀ pre x mid y post, hs = pre ++ x :: (mid ++ y :: post) → x.job = .mode →
        (∀ z ∈ mid, z.job = .mode) → y.job = .mode → Passes x.deeds → x.ending ≠ .panicked →
          ∃ mode, x.ending = .done (some mode) (.ok (.mode mode)) ∧ y.Returns mode := by
  refine ⟨h.history hf, fun hs hhist => ?_⟩
  obtain ⟨hv, hlinked, houtcomes⟩ := hhist.remembers hf
  refine ⟨houtcomes, hv, fun pre x post he => ⟨fun mode answer hr => ?_, ?_⟩,
    fun pre x mid y post he => hlinked.reads_in_a_row he⟩
  · obtain ⟨cached, -, hran⟩ := hlinked pre x post he
    exact hran.records hr
  · exact hlinked.reads he

def brokenExit : List Action :=
  [Action.call .mode, .call .mode, .start .policy] ++ Action.goesOn .policy 2 ++
    [Action.callbackEnds 0 0 (.returned true)] ++ Action.goesOn .policy 1 ++
      [Action.resume (.job .policy) { call := .panicked }, .start .policy] ++
        Action.goesOn .policy 2 ++ [Action.callbackEnds 1 0 (.returned true)] ++
          Action.goesOn .policy 2

theorem enforcement_on_read_brokenExit :
    ∃ m hs, (plain ["restrictions"]).run? epoch brokenExit = some m ∧
      History (plain ["restrictions"]) hs m ∧ hs.map EndedJob.ending =
        [.panicked, .done (some .notActive) (.ok (.mode .notActive))] ∧
      Recorded {} hs .notActive := by
  have hrun : ∃ m, (plain ["restrictions"]).run? epoch brokenExit = some m ∧
      m.Idle .policy ∧ m.engine.policy.value = some .notActive ∧
        m.engine.policy.outcomes = [(.mode, .panicked),
          (.mode, .done (some .notActive) (.ok (.mode .notActive)))] := ⟨_, rfl, rfl, rfl, rfl⟩
  obtain ⟨m, hrun, hidle, hvalue, houtcomes⟩ := hrun
  obtain ⟨hexists, hall⟩ := enforcement_on_read (plain_fresh ["restrictions"])
    ((Reaches.refl _).run (fun _ _ => trivial) hrun)
  obtain ⟨hs, hhist⟩ := hexists hidle
  obtain ⟨hmap, hcached, -⟩ := hall hs hhist
  refine ⟨m, hs, hrun, hhist, ?_, (hcached _).mp hvalue⟩
  have hends := congrArg (List.map Prod.snd) (hmap.trans houtcomes)
  rwa [List.map_map] at hends

theorem passes_twice :
    ∃ m, (plain ["restrictions"]).run? epoch brokenExit = some m ∧
      m.engine.policy.submitted = [.mode, .mode] ∧
        m.world.trace.count (.counted (.enforcement true)) = 2 :=
  ⟨_, rfl, rfl, rfl⟩

end Machine

end DeviceLock
