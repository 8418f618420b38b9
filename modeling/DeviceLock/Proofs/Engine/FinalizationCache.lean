import DeviceLock.Proofs.Engine.Position
import DeviceLock.Proofs.Engine.Resumption

namespace DeviceLock

namespace Deed

def finalized (s : FinalizationState) : Deed → FinalizationState
  | request (.write (.finalization t)) (.ok _) => t
  | _ => s

def Loads (s : FinalizationState) : Deed → Prop
  | request .load (.ok d) => d.finalization = s
  | _ => True

theorem finalization_effect (d : Deed) (c : Core) :
    (d.effect c).document.finalization = d.finalized c.document.finalization := by
  cases d with
  | act a x => cases a <;> rfl
  | request r x =>
    cases r with
    | write k =>
      cases x with
      | error f => cases k <;> rfl
      | ok u => cases k <;> rfl
    | cursor => cases x <;> rfl
    | _ => rfl

theorem loads_of_fits {d : Deed} {c : Core} (h : d.Fits c) : d.Loads c.document.finalization := by
  cases d with
  | act a x => trivial
  | request r x =>
    cases r with
    | load =>
      cases x with
      | error f => trivial
      | ok doc => exact congrArg Document.finalization h
    | _ => trivial

end Deed

namespace Program

variable {α β : Type} {granted : Prop} {I : FinalizationState → Prop}
  {Q : FinalizationState → Except Fault α → Prop} {s t : FinalizationState}

/-- The program performs no act, and has the stored finalization state as asked while it waits and
when it ends. Nothing may be refused if all is granted. -/
def Tracks (granted : Prop) (I : FinalizationState → Prop)
    (Q : FinalizationState → Except Fault α → Prop) : Program α → FinalizationState → Prop
  | done r, s => Q s r
  | act _ _, _ => False
  | wait r next, s =>
    I s ∧ ∀ x, (Deed.request r x).Loads s → (granted → (Deed.request r x).Granted) →
      (next x).Tracks granted I Q ((Deed.request r x).finalized s)

theorem tracks_bind {p : Program α} {f : α → Program β}
    {Q : FinalizationState → Except Fault β → Prop} :
    (p >>= f).Tracks granted I Q s ↔ p.Tracks granted I (fun s r =>
      match r with
      | .ok a => (f a).Tracks granted I Q s
      | .error e => Q s (.error e)) s := by
  induction p generalizing s with
  | done r => cases r <;> rfl
  | act a next ih => rfl
  | wait r next ih =>
    exact and_congr_right fun _ => forall_congr' fun x => imp_congr_right fun _ =>
      imp_congr_right fun _ => ih x

theorem Tracks.imp {p : Program α} {R : FinalizationState → Except Fault α → Prop}
    (h : p.Tracks granted I Q s) (hQR : ∀ s r, Q s r → R s r) : p.Tracks granted I R s := by
  induction p generalizing s with
  | done r => exact hQR s r h
  | act a next ih => exact h.elim
  | wait r next ih => exact ⟨h.1, fun x hl hg => ih x (h.2 x hl hg)⟩

theorem Tracks.walk {p q : Program α} {l : List Deed} {c c' : Core}
    (hp : p.Tracks granted I Q c.document.finalization) (hw : Walk p l q)
    (hs : Lane.finalization.Story c l c') (hg : granted → ∀ d ∈ l, d.Granted) :
    q.Tracks granted I Q c'.document.finalization := by
  induction hw generalizing c with
  | stay p =>
    have : c'.document.finalization = c.document.finalization := hs.spares (by simp)
    rwa [this]
  | act x _ ih => exact hp.elim
  | wait x _ ih =>
    obtain ⟨c₁, hspares, hfits, hl⟩ := hs.head
    have hc : c₁.document.finalization = c.document.finalization := hspares
    -- The others spare the stored state, so the request is answered as if the job ran alone.
    refine ih ?_ hl fun h d hd => hg h d (List.mem_cons_of_mem _ hd)
    rw [Deed.finalization_effect, hc]
    exact hp.2 x (hc ▸ Deed.loads_of_fits hfits) fun h => hg h _ List.mem_cons_self

theorem sendReport_tracks {config : RecoveryConfig}
    {Q : FinalizationState → Except Fault FinalizationState → Prop}
    (hother : s ≠ .unreported → Q t (.ok s))
    (hdue : s = .unreported → I t ∧ Q .finalized (.ok .finalized) ∧
      (¬ granted → Q t (.ok .unreported) ∧ ∀ e, Q t (.error e))) :
    (sendReport config s).Tracks granted I Q t := by
  unfold sendReport
  split
  · rename_i hs
    exact hother hs
  · rename_i hs
    obtain rfl : s = .unreported := Decidable.not_not.mp hs
    obtain ⟨hI, hfin, hrefused⟩ := hdue rfl
    refine ⟨hI, fun x _ hx => ?_⟩
    cases x with
    | ok u =>
      refine ⟨hI, fun y _ hy => ?_⟩
      cases y with
      | ok u => exact hfin
      | error f => exact (hrefused hy).2 _
    | error e =>
      refine ⟨hI, fun y _ hy => ?_⟩
      cases y with
      | ok u => exact (hrefused hx).1
      | error f => exact (hrefused hx).2 _

end Program

def Coherent (cached : Option FinalizationState) (stored : FinalizationState) : Prop :=
  ∀ s, cached = some s → s = stored

/-- The end of the program is stored, and the next job is told that nothing is. -/
def Lapsed (cached : Option FinalizationState) (stored : FinalizationState) : Prop :=
  cached = some .unfinalized ∧ stored = .unreported

instance (cached : Option FinalizationState) (stored : FinalizationState) :
    Decidable (Lapsed cached stored) := inferInstanceAs (Decidable (_ ∧ _))

theorem not_lapsed_of_coherent {cached : Option FinalizationState} {stored : FinalizationState}
    (h : Coherent cached stored) : ¬ Lapsed cached stored := by
  rintro ⟨rfl, rfl⟩
  cases h _ rfl

namespace FinalizationJob

open Program

def Holds (job : FinalizationJob) (before now : FinalizationState) : Prop :=
  now = before ∨ job = .cleared ∧ before = .unfinalized ∧ now = .unreported

def Leaves (job : FinalizationJob) (cached : Option FinalizationState)
    (before now : FinalizationState) : Except Fault FinalizationState → Prop
  | .error _ => job.Holds before now
  | .ok s =>
    if Lapsed cached before ∧ job ≠ .cleared then s = .unfinalized ∧ now = before else s = now

variable {config : RecoveryConfig} {job : FinalizationJob} {s : FinalizationState}
  {cached : Option FinalizationState}

theorem tracks_of_stored (hl : ¬ Lapsed cached s) :
    (finalization config (some s) job).Tracks False (job.Holds s) (job.Leaves cached s) s := by
  have hok (t : FinalizationState) : job.Leaves cached s t (.ok t) :=
    (if_neg fun h => hl h.1).mpr rfl
  cases job with
  | read =>
    rw [finalization_read]
    exact hok s
  | retry =>
    rw [finalization_retry]
    refine sendReport_tracks (fun _ => hok s) ?_
    rintro rfl
    exact ⟨.inl rfl, hok _, fun _ => ⟨hok _, fun e => .inl rfl⟩⟩
  | cleared =>
    rw [finalization_cleared]
    cases s with
    | unfinalized =>
      refine ⟨.inl rfl, fun x _ _ => ?_⟩
      cases x with
      | error f => exact .inl rfl
      | ok u =>
        refine sendReport_tracks (fun h => absurd rfl h) fun _ => ?_
        exact ⟨.inr ⟨rfl, rfl, rfl⟩, hok _, fun _ => ⟨hok _, fun e => .inr ⟨rfl, rfl, rfl⟩⟩⟩
    | unreported =>
      refine sendReport_tracks (fun h => absurd rfl h) fun _ => ?_
      exact ⟨.inl rfl, hok _, fun _ => ⟨hok _, fun e => .inl rfl⟩⟩
    | finalized => exact hok _

theorem tracks_of_lapsed :
    (finalization config (some .unfinalized) job).Tracks False (job.Holds .unreported)
      (job.Leaves (some .unfinalized) .unreported) .unreported := by
  have hl : Lapsed (some .unfinalized) .unreported := ⟨rfl, rfl⟩
  cases job with
  | read =>
    rw [finalization_read]
    change read.Leaves _ _ _ (.ok _)
    simp [Leaves, hl]
  | retry =>
    rw [finalization_retry]
    refine sendReport_tracks (fun _ => ?_) fun h => by cases h
    simp [Leaves, hl]
  | cleared =>
    have hok (t : FinalizationState) :
        cleared.Leaves (some .unfinalized) .unreported t (.ok t) := by
      simp [Leaves]
    rw [finalization_cleared]
    refine ⟨.inl rfl, fun x _ _ => ?_⟩
    cases x with
    | error f => exact .inl rfl
    | ok u =>
      refine sendReport_tracks (fun h => absurd rfl h) fun _ => ?_
      exact ⟨.inl rfl, hok _, fun _ => ⟨hok _, fun e => .inl rfl⟩⟩

theorem tracks_of_coherent {granted : Prop} {I : FinalizationState → Prop}
    {Q : FinalizationState → Except Fault FinalizationState → Prop} (h : Coherent cached s)
    (hI : I s) (hQ : ¬ granted → ∀ e, Q s (.error e))
    (hs : (finalization config (some s) job).Tracks granted I Q s) :
    (finalization config cached job).Tracks granted I Q s := by
  cases cached with
  | some t =>
    obtain rfl := h t rfl
    exact hs
  | none =>
    rw [finalization_none]
    refine ⟨hI, fun x hx hgranted => ?_⟩
    cases x with
    | error f => exact hQ hgranted _
    | ok d =>
      obtain rfl : d.finalization = s := hx
      exact hs

theorem finalization_tracks (h : Coherent cached s ∨ Lapsed cached s) :
    (finalization config cached job).Tracks False (job.Holds s) (job.Leaves cached s) s := by
  rcases h with h | ⟨rfl, rfl⟩
  · exact tracks_of_coherent h (.inl rfl) (fun _ e => .inl rfl)
      (tracks_of_stored fun hl => not_lapsed_of_coherent h hl)
  · exact tracks_of_lapsed

def HandsOn (job : FinalizationJob) (cached : Option FinalizationState)
    (before now : FinalizationState) :
    Except Fault (Option FinalizationState × Except Fault Reply) → Prop
  | .error _ => job.Holds before now
  | .ok (v, _) =>
    if Lapsed cached before ∧ job ≠ .cleared then v = cached ∧ now = before else v = some now

theorem program_tracks {config : EngineConfig} (h : Coherent cached s ∨ Lapsed cached s) :
    (job.program config cached).Tracks False (job.Holds s) (job.HandsOn cached s) s := by
  refine tracks_bind.mpr ((finalization_tracks h).imp fun t r hr => ?_)
  cases r with
  | error f => exact hr
  | ok u =>
    change job.HandsOn cached s t (.ok (some u, _))
    simp only [Leaves] at hr
    simp only [HandsOn]
    split at hr
    · rename_i hl
      rw [if_pos hl, hl.1.1, hr.1]
      exact ⟨rfl, hr.2⟩
    · rename_i hl
      rw [if_neg hl, hr]

theorem lapsed_of_handsOn {now : FinalizationState} {v : Option FinalizationState}
    {a : Except Fault Reply} (h : job.HandsOn cached s now (.ok (v, a))) :
    (Coherent v now ∨ Lapsed v now) ∧ (Lapsed cached s → (Lapsed v now ↔ job ≠ .cleared)) ∧
      (Coherent cached s → ¬ Lapsed v now) := by
  simp only [HandsOn] at h
  split at h
  · rename_i hl
    obtain ⟨rfl, rfl⟩ := h
    refine ⟨.inr hl.1, fun _ => iff_of_true hl.1 hl.2, fun h => ?_⟩
    exact absurd hl.1 (not_lapsed_of_coherent h)
  · rename_i hl
    have hm : Coherent v now := fun t ht => Option.some.inj (ht.symm.trans h)
    have hn := not_lapsed_of_coherent hm
    exact ⟨.inl hm, fun hb => iff_of_false hn fun hj => hl ⟨hb, hj⟩, fun _ => hn⟩

theorem lapsed_of_holds {now : FinalizationState} (hc : Coherent cached s ∨ Lapsed cached s)
    (h : job.Holds s now) :
    (Coherent cached now ∨ Lapsed cached now) ∧ (Lapsed cached s → Lapsed cached now) ∧
      (Coherent cached s →
        (Lapsed cached now ↔ job = .cleared ∧ cached = some .unfinalized ∧ now = .unreported)) := by
  rcases h with rfl | ⟨rfl, rfl, rfl⟩
  · refine ⟨hc, id, fun hb => ?_⟩
    have hn := not_lapsed_of_coherent hb
    exact iff_of_false hn fun h => hn h.2
  -- The notice has stored the end of the program and then failed: the value is that of before.
  · have hb : Coherent cached .unfinalized := hc.resolve_right fun h => by cases h.2
    refine ⟨?_, fun h => absurd h.2 (by simp), fun _ => by simp [Lapsed]⟩
    cases cached with
    | none => exact .inl fun t ht => by cases ht
    | some t =>
      obtain rfl := hb t rfl
      exact .inr ⟨rfl, rfl⟩

end FinalizationJob

namespace Machine

open Program

variable {P : Action → Prop} {b m m' : Machine} {l : List Deed} {job : FinalizationJob}

def cached (m : Machine) : Option FinalizationState := m.engine.finalization.value

def stored (m : Machine) : FinalizationState := m.world.document.finalization

def Answers (b m : Machine) : Prop :=
  ∃ v a, m.engine.finalization.ended = b.engine.finalization.ended ++ [.done v a]

theorem finalization_ended (hb : b.Follows .usual)
    (hnext : b.engine.finalization.next? = some job) (hw : Works .finalization P b l m)
    (hidle : m.Idle .finalization) (hc : Coherent b.cached b.stored ∨ Lapsed b.cached b.stored) :
    (b.Answers m ∧ ∃ v a, m.cached = v ∧ job.HandsOn b.cached b.stored m.stored (.ok (v, a))) ∨
      ¬ b.Answers m ∧ m.cached = b.cached ∧ job.Holds b.stored m.stored := by
  have hspan := hw.span_of_next hb hnext
  have htracks : (b.opening .finalization job).Tracks False (job.Holds b.stored)
      (job.HandsOn b.cached b.stored) b.stored := FinalizationJob.program_tracks hc
  have hfails {e : Ending (Option FinalizationState) (Except Fault Reply) Fault}
      (he : m.engine.finalization.ended = b.engine.finalization.ended ++ [e])
      (hne : ∀ v a, e ≠ .done v a) : ¬ b.Answers m := by
    rintro ⟨v, a, h⟩
    exact hne v a (by simpa using he.symm.trans h)
  obtain ⟨e, hend, he, hv⟩ := hspan.exists_ending hidle
  cases hend with
  | done h =>
    have hleaves := htracks.walk h hspan.story fun h => h.elim
    exact .inl ⟨⟨_, _, he⟩, _, _, hv, hleaves⟩
  | failed h =>
    have hholds := htracks.walk h hspan.story fun h => h.elim
    exact .inr ⟨hfails he (by simp), hv, hholds⟩
  | panicked h =>
    have hholds := (htracks.walk h hspan.story fun h => h.elim).1
    exact .inr ⟨hfails he (by simp), hv, hholds⟩

theorem lapsed_after_job (hb : b.Follows .usual)
    (hnext : b.engine.finalization.next? = some job) (hw : Works .finalization P b l m)
    (hidle : m.Idle .finalization) (hc : Coherent b.cached b.stored ∨ Lapsed b.cached b.stored) :
    (Coherent m.cached m.stored ∨ Lapsed m.cached m.stored) ∧
      (Lapsed b.cached b.stored →
        (Lapsed m.cached m.stored ↔ ¬ (job = .cleared ∧ b.Answers m))) ∧
      (Coherent b.cached b.stored →
        (Lapsed m.cached m.stored ↔ job = .cleared ∧ b.cached = some .unfinalized ∧
          m.stored = .unreported ∧ ¬ b.Answers m)) := by
  rcases finalization_ended hb hnext hw hidle hc with ⟨ha, v, a, rfl, hv⟩ | ⟨ha, hv, hs⟩
  · obtain ⟨hm, hlapsed, hcoherent⟩ := FinalizationJob.lapsed_of_handsOn hv
    refine ⟨hm, fun hb => (hlapsed hb).trans ?_, fun hb => iff_of_false (hcoherent hb) fun h => ?_⟩
    · exact not_congr (and_iff_left ha).symm
    · exact h.2.2.2 ha
  · obtain ⟨hm, hlapsed, hcoherent⟩ := FinalizationJob.lapsed_of_holds hc hs
    rw [hv]
    refine ⟨hm, fun hb => iff_of_true (hlapsed hb) fun h => ha h.2, fun hb => ?_⟩
    simpa [ha] using hcoherent hb

theorem coherent_or_lapsed (hm : m.Reachable) (hidle : m.Idle .finalization) :
    Coherent m.cached m.stored ∨ Lapsed m.cached m.stored := by
  obtain ⟨d, m₀, hfresh, hr⟩ := hm
  have hnone {m : Machine} (h : m.cached = none) : Coherent m.cached m.stored := by
    rw [h]
    exact fun s hs => by cases hs
  have hempty : m₀.cached = none := by
    rw [cached, hfresh.engine.1]
  have hcases := hr.boundary_or_works
    (I := fun m => Coherent m.cached m.stored ∨ Lapsed m.cached m.stored)
    ⟨hfresh.idle .finalization, .inl (hnone hempty)⟩ (fun m _ _ => .inl (hnone rfl)) ?_ ?_
  · rcases hcases with ⟨-, h⟩ | ⟨h, -⟩
    · exact h
    · exact absurd hidle h
  · intro m now a m' hm hidle hI _ ha hrestart hs
    have hspares : m'.stored = m.stored :=
      beside_spares (hm.usual (hfresh.follows _)) hs ha hrestart
    have hcached : m'.cached = m.cached := (step_frame hs hrestart).value ha
    rwa [hcached, hspares]
  · intro b l m hb hbidle hI hw hidle
    obtain ⟨j, hj, -⟩ := hw.span (hb.usual (hfresh.follows _))
    exact (lapsed_after_job (hb.usual (hfresh.follows _)) hj hw hidle hI).1

theorem sendReport_granted {config : RecoveryConfig} :
    (sendReport config .unreported).Tracks True (fun _ => True) (fun now _ => now = .finalized)
      .unreported :=
  sendReport_tracks (fun h => absurd rfl h) fun _ => ⟨trivial, rfl, fun h => absurd trivial h⟩

theorem reports_of_coherent {config : EngineConfig} {cached : Option FinalizationState}
    {s : FinalizationState} (h : Coherent cached s)
    (hs : (finalization config.recovery (some s) job).Tracks True (fun _ => True)
      (fun now _ => now = .finalized) s) :
    (job.program config cached).Tracks True (fun _ => True) (fun now _ => now = .finalized) s := by
  apply tracks_bind.mpr
  apply (FinalizationJob.tracks_of_coherent h trivial (fun h => absurd trivial h) hs).imp
  intro s r hs
  cases r <;> exact hs

theorem retry_reports {config : EngineConfig} {cached : Option FinalizationState}
    (h : Coherent cached .unreported) :
    (FinalizationJob.retry.program config cached).Tracks True (fun _ => True)
      (fun now _ => now = .finalized) .unreported := by
  apply reports_of_coherent h
  rw [finalization_retry]
  exact sendReport_granted

theorem notice_reports {config : EngineConfig} {cached : Option FinalizationState}
    {s : FinalizationState} (h : Coherent cached s) :
    (FinalizationJob.cleared.program config cached).Tracks True (fun _ => True)
      (fun now _ => now = .finalized) s := by
  apply reports_of_coherent h
  rw [finalization_cleared]
  cases s with
  | unfinalized =>
    refine ⟨trivial, fun x _ hgranted => ?_⟩
    cases x with
    | error f => exact (hgranted trivial).elim
    | ok u => exact sendReport_granted
  | unreported => exact sendReport_granted
  | finalized => exact rfl

theorem finalized_of_works (hb : b.Follows .usual)
    (hnext : b.engine.finalization.next? = some job) (hw : Works .finalization P b l m)
    (hidle : m.Idle .finalization)
    (hP : ∀ c, P (.resume (.job .finalization) c) → c.Willing)
    (h : (job.program b.engine.config b.cached).Tracks True (fun _ => True)
      (fun now _ => now = .finalized) b.stored) : m.stored = .finalized := by
  have hspan := hw.span_of_next hb hnext
  have htracks : (b.opening .finalization job).Tracks True (fun _ => True)
      (fun now _ => now = .finalized) b.core.document.finalization := h
  have hgranted : True → ∀ d ∈ l, d.Granted := fun _ => hw.granted hP
  obtain ⟨e, hend, -⟩ := hspan.exists_ending hidle
  cases hend with
  | done h => exact (htracks.walk h hspan.story hgranted : m.stored = .finalized)
  | failed h => exact (htracks.walk h hspan.story hgranted : m.stored = .finalized)
  | panicked _ hc hn => exact absurd (hP _ hc).calm hn

theorem exists_finalization_end {c : Conduct} (hb : b.Follows .usual)
    (hnext : b.engine.finalization.next? = some job) (hs : P (.start .finalization))
    (hp : P (.resume (.job .finalization) c)) (hc : c.Calm) :
    ∃ l m, Works .finalization P b l m ∧ m.Idle .finalization := by
  have hn : (b.engine.queue .finalization).next? = some job := hnext
  refine (Works.start hs (start_of_next hn epoch)).finish (n := 4) hb hp hc (fun j => ?_)
    fun r hr => ?_
  · exact brief_bind (k := 0) (finalization_brief _ _ j) fun _ => brief_pure _ _
  · cases r with
    | join n => exact hr.elim
    | await t => exact hr.elim
    | _ => simp

/-- The state that is handed on is the stored one unless it has lapsed. It lapses when a job has
stored the end of the program and then fails, until a later notice is answered; meanwhile, and only
then, a retry does not bring the end of the program to its report. -/
theorem finalization_cache (hb : b.Reachable) (hidle : b.Idle .finalization) :
    (Coherent b.cached b.stored ↔ ¬ Lapsed b.cached b.stored) ∧
      ∀ job, b.engine.finalization.next? = some job →
        (∀ P l m, Works .finalization P b l m → m.Idle .finalization →
          (Lapsed m.cached m.stored ↔
            if Lapsed b.cached b.stored then ¬ (job = .cleared ∧ b.Answers m)
            else job = .cleared ∧ b.cached = some .unfinalized ∧ m.stored = .unreported ∧
              ¬ b.Answers m)) ∧
          (job = .retry → b.stored = .unreported →
            (∃ l m, Works .finalization (Action.Under .finalization Conduct.Willing) b l m ∧
              m.Idle .finalization) ∧
              ∀ l m, Works .finalization (Action.Under .finalization Conduct.Willing) b l m →
                m.Idle .finalization → (m.stored = .finalized ↔ ¬ Lapsed b.cached b.stored)) := by
  have hc := coherent_or_lapsed hb hidle
  refine ⟨⟨not_lapsed_of_coherent, hc.resolve_right⟩, fun job hnext => ⟨?_, ?_⟩⟩
  · intro P l m hw hidle
    obtain ⟨-, hlapsed, hcoherent⟩ := lapsed_after_job hb.usual hnext hw hidle hc
    split
    · rename_i hl
      exact hlapsed hl
    · rename_i hl
      exact hcoherent (hc.resolve_right hl)
  · rintro rfl hstored
    refine ⟨exists_finalization_end hb.usual hnext Action.under_start
      (Action.under_resume.mpr Conduct.willing_default) Conduct.calm_default,
      fun l m hw hidle => ?_⟩
    by_cases hl : Lapsed b.cached b.stored
    · refine iff_of_false (fun hfin => ?_) fun h => h hl
      have hsame : m.stored = b.stored := by
        rcases finalization_ended hb.usual hnext hw hidle hc with ⟨-, v, a, -, hv⟩ | ⟨-, -, hs⟩
        · rw [FinalizationJob.HandsOn, if_pos ⟨hl, by simp⟩] at hv
          exact hv.2
        · rcases hs with hs | ⟨h, -⟩
          · exact hs
          · cases h
      rw [hsame, hstored] at hfin
      cases hfin
    · refine iff_of_true ?_ hl
      apply finalized_of_works hb.usual hnext hw hidle (fun c hc => hc c rfl)
      have hco := hc.resolve_right hl
      rw [hstored] at hco ⊢
      exact retry_reports hco

def lapse : List Action := [
  .call .finalization, .start .finalization, .resume (.job .finalization) {},
  .call .notifyCleared, .start .finalization, .resume (.job .finalization) {},
  .resume (.job .finalization) { call := .refused "503" },
  .resume (.job .finalization) { call := .refused "no alarms" }]

theorem coherence_lost :
    ∃ m : Machine, m.Reachable ∧ m.Idle .finalization ∧ ¬ Coherent m.cached m.stored := by
  have hrun : ((plain []).run? epoch lapse).any (fun m =>
      m.engine.finalization.running.isNone && decide (Lapsed m.cached m.stored)) = true := rfl
  obtain ⟨m, hm, hp⟩ := (Option.any_eq_true _ _).mp hrun
  obtain ⟨hidle, hl⟩ := (Bool.and_eq_true _ _).mp hp
  refine ⟨m, ⟨{}, plain [], plain_fresh [], (Reaches.refl _).run (fun _ _ => trivial) hm⟩,
    Option.isNone_iff_eq_none.mp hidle, fun h => ?_⟩
  exact not_lapsed_of_coherent h (of_decide_eq_true hl)

theorem finalization_cache_lapsed :
    ∃ b : Machine, b.Reachable ∧ b.Idle .finalization ∧
      b.engine.finalization.next? = some .retry ∧ b.stored = .unreported ∧
        ∃ l m, Works .finalization (Action.Under .finalization Conduct.Willing) b l m ∧
          m.Idle .finalization ∧ m.stored ≠ .finalized := by
  have hrun : ((plain []).run? epoch (lapse ++ [.call .retryReport])).any (fun m =>
      m.engine.finalization.running.isNone && (m.engine.finalization.next? == some .retry) &&
        decide (Lapsed m.cached m.stored)) = true := rfl
  obtain ⟨b, hb, hp⟩ := (Option.any_eq_true _ _).mp hrun
  simp only [Bool.and_eq_true, beq_iff_eq, decide_eq_true_eq, Option.isNone_iff_eq_none] at hp
  obtain ⟨⟨hidle, hnext⟩, hl⟩ := hp
  have hreach : b.Reachable :=
    ⟨{}, plain [], plain_fresh [], (Reaches.refl _).run (fun _ _ => trivial) hb⟩
  obtain ⟨-, hjobs⟩ := finalization_cache hreach hidle
  obtain ⟨⟨l, m, hw, hm⟩, hretry⟩ := (hjobs .retry hnext).2 rfl hl.2
  exact ⟨b, hreach, hidle, hnext, hl.2, l, m, hw, hm, fun h => (hretry l m hw hm).mp h hl⟩

end Machine

end DeviceLock
