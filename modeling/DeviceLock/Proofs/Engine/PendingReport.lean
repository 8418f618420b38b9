import DeviceLock.Proofs.Engine.Events
import DeviceLock.Proofs.Engine.FinalizationCache

namespace DeviceLock

def Event.isCall : Event → Bool
  | .called _ _ => true
  | _ => false

inductive Reporting (delay : UInt64) : FinalizationState → List Event → Prop
  | silent (s : FinalizationState) {es : List Event} (h : ∀ e ∈ es, e.isCall = false) :
      Reporting delay s es
  | refused (message : String) (v : Verdict String) {es : List Event}
      (h : ∀ e ∈ es, e.isCall = false) :
      Reporting delay .unreported (.called (.alarm .finalizationReportRetry delay) v ::
        .called .reportFinalized (.refused message) :: es)
  | panicked {es : List Event} (h : ∀ e ∈ es, e.isCall = false) :
      Reporting delay .unreported (.called .reportFinalized .panicked :: es)
  | unstored {v : Verdict StorageFault} (hv : v ≠ .ok) {es : List Event}
      (h : ∀ e ∈ es, e.isCall = false) :
      Reporting delay .unreported
        (.wrote (.finalization .finalized) v :: .called .reportFinalized .ok :: es)
  | stored {es : List Event} (h : ∀ e ∈ es, e.isCall = false) :
      Reporting delay .finalized
        (.wrote (.finalization .finalized) .ok :: .called .reportFinalized .ok :: es)

def Rearmed (delay : UInt64) (es : List Event) : Prop :=
  ∃ later v earlier, es = later ++ .called (.alarm .finalizationReportRetry delay) v :: earlier ∧
    ∃ w, .called .reportFinalized w ∈ earlier

def Dropped (es : List Event) : Prop :=
  (.called .reportFinalized .ok ∈ es ∧ ∃ v, v ≠ .ok ∧ .wrote (.finalization .finalized) v ∈ es) ∨
    .called .reportFinalized .panicked ∈ es

theorem not_rearmed {delay : UInt64} {es : List Event}
    (h : ∀ v, .called (.alarm .finalizationReportRetry delay) v ∉ es) : ¬ Rearmed delay es := by
  rintro ⟨later, v, earlier, rfl, -⟩
  exact h v (List.mem_append_right _ List.mem_cons_self)

theorem Reporting.pending {delay : UInt64} {es : List Event}
    (h : Reporting delay .unreported es) (hcalled : ∃ v, .called .reportFinalized v ∈ es) :
    (Rearmed delay es ↔ ∃ message, .called .reportFinalized (.refused message) ∈ es) ∧
      (¬ Rearmed delay es ↔ Dropped es) := by
  have hno {es : List Event} (h : ∀ e ∈ es, e.isCall = false) (k : Call) (v : Verdict String) :
      .called k v ∉ es := fun hmem => Bool.false_ne_true (h _ hmem).symm
  cases h with
  | silent _ h =>
    obtain ⟨v, hv⟩ := hcalled
    exact absurd hv (hno h _ v)
  | @refused message v es h =>
    have hrearmed : Rearmed delay (.called (.alarm .finalizationReportRetry delay) v ::
        .called .reportFinalized (.refused message) :: es) :=
      ⟨[], v, _, rfl, .refused message, List.mem_cons_self⟩
    refine ⟨iff_of_true hrearmed ⟨message, by simp⟩, iff_of_false (not_not_intro hrearmed) ?_⟩
    simp [Dropped, hno h]
  | @panicked es h =>
    have hnot : ¬ Rearmed delay (.called .reportFinalized .panicked :: es) :=
      not_rearmed (by simp [hno h])
    exact ⟨iff_of_false hnot (by simp [hno h]), iff_of_true hnot (.inr List.mem_cons_self)⟩
  | @unstored w hw es h =>
    have hnot : ¬ Rearmed delay
        (.wrote (.finalization .finalized) w :: .called .reportFinalized .ok :: es) :=
      not_rearmed (by simp [hno h])
    exact ⟨iff_of_false hnot (by simp [hno h]),
      iff_of_true hnot (.inl ⟨by simp, w, hw, List.mem_cons_self⟩)⟩

namespace Program

variable {α β : Type} {Q : FinalizationState → List Event → Prop} {s : FinalizationState}
  {es : List Event} {config : RecoveryConfig}

/-- The program performs no act, and however its requests are answered, it ends or dies with the
stored state and the events, newest first, as asked. -/
def Ensures (Q : FinalizationState → List Event → Prop) :
    Program α → FinalizationState → List Event → Prop
  | done _, s, es => Q s es
  | act _ _, _, _ => False
  | wait r next, s, es =>
    Q s (r.panic?.toList ++ es) ∧ ∀ x, (Deed.request r x).Loads s →
      (next x).Ensures Q ((Deed.request r x).finalized s) ((Deed.request r x).event?.toList ++ es)

theorem ensures_bind {p : Program α} {f : α → Program β} (hp : p.Ensures Q s es)
    (hf : ∀ a, ∃ r, f a = done r) : (p >>= f).Ensures Q s es := by
  induction p generalizing s es with
  | done r =>
    cases r with
    | error e => exact hp
    | ok a =>
      obtain ⟨r, hr⟩ := hf a
      change (f a).Ensures Q s es
      rw [hr]
      exact hp
  | act a next ih => exact hp.elim
  | wait r next ih => exact ⟨hp.1, fun x hx => ih x (hp.2 x hx)⟩

theorem sendReport_ensures {state : FinalizationState} (hs : state = .unreported → s = .unreported)
    (hes : ∀ e ∈ es, e.isCall = false) :
    (sendReport config state).Ensures (Reporting config.finalizationRetry) s es := by
  unfold sendReport
  split
  · exact .silent s hes
  · rename_i hstate
    obtain rfl : state = .unreported := Decidable.not_not.mp hstate
    obtain rfl := hs rfl
    refine ⟨.panicked hes, fun x _ => ?_⟩
    cases x with
    | error message =>
      refine ⟨.refused message .panicked hes, fun y _ => ?_⟩
      cases y with
      | ok u => exact .refused message .ok hes
      | error f => exact .refused message (.refused f) hes
    | ok u =>
      refine ⟨.unstored (by simp) hes, fun y _ => ?_⟩
      cases y with
      | ok u => exact .stored hes
      | error f => exact .unstored (v := .refused f) (by simp) hes

theorem finalization_ensures {cached : Option FinalizationState} {job : FinalizationJob}
    (h : Coherent cached s ∨ Lapsed cached s) :
    (finalization config cached job).Ensures (Reporting config.finalizationRetry) s [] := by
  have hnone : ∀ e ∈ ([] : List Event), e.isCall = false := by simp
  have hwrote (v : Verdict StorageFault) :
      ∀ e ∈ [Event.wrote (.finalization .unreported) v], e.isCall = false := by
    simp [Event.isCall]
  have hsome (c : FinalizationState) (hc : c = .unreported → s = .unreported) :
      (finalization config (some c) job).Ensures (Reporting config.finalizationRetry) s [] := by
    cases job with
    | read =>
      rw [finalization_read]
      exact .silent s hnone
    | retry =>
      rw [finalization_retry]
      exact sendReport_ensures hc hnone
    | cleared =>
      rw [finalization_cleared]
      cases c with
      | unfinalized =>
        refine ⟨.silent s (hwrote .panicked), fun x _ => ?_⟩
        cases x with
        | error f => exact .silent s (hwrote (.refused f))
        | ok u => exact sendReport_ensures (fun _ => rfl) (hwrote .ok)
      | unreported => exact sendReport_ensures hc hnone
      | finalized => exact .silent s hnone
  cases cached with
  | some c =>
    apply hsome
    rintro rfl
    rcases h with h | ⟨h, -⟩
    · exact (h _ rfl).symm
    · cases h
  | none =>
    rw [finalization_none]
    refine ⟨.silent s hnone, fun x hx => ?_⟩
    cases x with
    | error f => exact .silent s hnone
    | ok doc => exact hsome doc.finalization fun hdoc => hx.symm.trans hdoc

end Program

open Program

theorem FinalizationJob.program_ensures {config : EngineConfig} {job : FinalizationJob}
    {cached : Option FinalizationState} {s : FinalizationState}
    (h : Coherent cached s ∨ Lapsed cached s) :
    (job.program config cached).Ensures (Reporting config.recovery.finalizationRetry) s [] :=
  ensures_bind (finalization_ensures h) fun _ => ⟨_, rfl⟩

namespace Machine

variable {P : Action → Prop} {lane : Lane} {b m m' : Machine} {now : Timestamp} {a : Action}
  {c : Conduct} {l : List Deed} {es es' : List Event} {Q : FinalizationState → List Event → Prop}

def Own (lane : Lane) : Companion (List Event) := fun es m _ a m' es' =>
  if a.lane? = some lane then ∃ new, m'.world.trace = new ++ m.world.trace ∧ es' = new ++ es
  else es' = es

theorem own_of_trace {new : List Event} (ha : a.lane? = some lane)
    (h : m'.world.trace = new ++ m.world.trace) : Own lane es m now a m' (new ++ es) := by
  rw [Own, if_pos ha]
  exact ⟨new, h, rfl⟩

theorem Works.exists_own (h : Works lane P b l m) :
    ∃ es, WorksWith lane (Own lane) b [] l m es := by
  have hown {es : List Event} {m m' : Machine} {now : Timestamp} {a : Action}
      (ha : a.lane? = some lane) (hs : m.step? now a = some m') :
      ∃ es', Own lane es m now a m' es' := by
    obtain ⟨new, hnew, -⟩ := step_answering hs
    exact ⟨new ++ es, own_of_trace ha hnew⟩
  induction h with
  | start _ hs =>
    obtain ⟨es, hes⟩ := hown rfl hs
    exact ⟨es, .start hs hes⟩
  | own _ _ hs ih =>
    obtain ⟨es, hw⟩ := ih
    obtain ⟨es', hes⟩ := hown rfl hs
    exact ⟨es', .own hw hs hes⟩
  | beside _ _ ha hr hs ih =>
    obtain ⟨es, hw⟩ := ih
    exact ⟨es, .beside hw ha hr hs (by rw [Own, if_neg ha])⟩

def Ensuring (Q : FinalizationState → List Event → Prop) (m : Machine) (es : List Event) : Prop :=
  match (m.engine.queue .finalization).running with
  | some p => p.Ensures Q m.stored es
  | none => Q m.stored es

theorem ensuring_advance {p : Program (Option FinalizationState × Except Fault Reply)}
    (h : p.Ensures Q m.stored es) (now : Timestamp) :
    ((m.advance now p).1.settle .finalization (m.advance now p).2).Ensuring Q es ∧
      (m.advance now p).1.world = m.world := by
  cases p with
  | act a next => exact h.elim
  | wait r next => exact ⟨h, rfl⟩
  | done r =>
    refine ⟨?_, rfl⟩
    rcases r with f | ⟨v, x⟩
    · exact h
    · exact h

theorem ensuring_resume {p : Program (Option FinalizationState × Except Fault Reply)}
    {progress : Progress (Option FinalizationState × Except Fault Reply)} {m₁ : Machine}
    (h : p.Ensures Q m.stored es) (hr : m.resume? now c p = some (m₁, progress)) :
    ∃ new, m₁.world.trace = new ++ m.world.trace ∧
      (m₁.settle .finalization progress).Ensuring Q (new ++ es) := by
  obtain ⟨r, next, rfl, ⟨rfl, -, hx⟩ | ⟨x, m₂, hx, hadv, -⟩⟩ := resume_after hr
  · refine ⟨_, respond_panicked_event hx, ?_⟩
    have hstored : m₁.stored = m.stored :=
      congrArg (fun c => c.document.finalization) (respond_of_panicked hx).1
    change Q m₁.stored _
    rw [hstored]
    exact h.1
  · obtain ⟨hfits, hcore⟩ := respond_core hx
    have hstored : m₂.stored = (Deed.request r x).finalized m.stored := by
      have heffect := congrArg (fun c => c.document.finalization) hcore
      exact heffect.trans (Deed.finalization_effect _ m.core)
    have hnext := h.2 x (Deed.loads_of_fits hfits)
    rw [← hstored] at hnext
    obtain ⟨hensuring, hworld⟩ := ensuring_advance hnext now
    rw [hadv] at hensuring hworld
    exact ⟨_, by rw [hworld, respond_trace hx], hensuring⟩

theorem WorksWith.ensuring (hb : b.Reachable)
    (hw : WorksWith .finalization (Own .finalization) b [] l m es) :
    m.Ensuring (Reporting b.engine.config.recovery.finalizationRetry) es := by
  induction hw with
  | @start now m es h hx =>
    obtain ⟨j, hj, rfl⟩ := start_cases h
    have hopening : (b.opening .finalization j).Ensures
        (Reporting b.engine.config.recovery.finalizationRetry) b.stored [] :=
      FinalizationJob.program_ensures (coherent_or_lapsed hb (idle_of_next hj))
    obtain ⟨hensuring, hworld⟩ := ensuring_advance hopening now
    obtain ⟨new, hnew, rfl⟩ := hx
    have htrace := congrArg World.trace hworld
    have hnone : new = [] := List.append_cancel_right (hnew.symm.trans htrace)
    rw [hnone]
    exact hensuring
  | @own now l m m' es es' c hw h hx ih =>
    obtain ⟨p, m₁, progress, hp, hr, rfl⟩ := resume_cases h
    rw [Ensuring, hp] at ih
    obtain ⟨new, htrace, hensuring⟩ := ensuring_resume ih hr
    obtain ⟨new', hnew, rfl⟩ := hx
    obtain rfl : new' = new := List.append_cancel_right (hnew.symm.trans htrace)
    exact hensuring
  | @beside now l m m' es es' a hw ha hr h hx ih =>
    rw [Own, if_neg ha] at hx
    subst hx
    have hstored : m'.stored = m.stored := beside_spares (hw.any.usual hb.usual) h ha hr
    unfold Ensuring at ih ⊢
    rw [(step_frame h hr).running ha, hstored]
    exact ih

/-- If a job has called for the report and it is still pending in the end, then the job has asked
for the alarm after that exactly if the report was refused. -/
theorem pending_report (hb : b.Reachable) (hw : Works .finalization P b l m)
    (hidle : m.Idle .finalization) (hpending : m.stored = .unreported) :
    (∃ es, WorksWith .finalization (Own .finalization) b [] l m es) ∧
      ∀ es, WorksWith .finalization (Own .finalization) b [] l m es →
        (∃ v, .called .reportFinalized v ∈ es) →
          (Rearmed b.engine.config.recovery.finalizationRetry es ↔
            ∃ message, .called .reportFinalized (.refused message) ∈ es) ∧
          (¬ Rearmed b.engine.config.recovery.finalizationRetry es ↔ Dropped es) := by
  refine ⟨hw.exists_own, fun es hes hcalled => ?_⟩
  have hreporting := hes.ensuring hb
  rw [Ensuring, hidle, hpending] at hreporting
  exact hreporting.pending hcalled

theorem WorksWith.run {as : List Action} (h : WorksWith lane (Own lane) b [] l m es)
    (htrace : m.world.trace = es ++ b.world.trace)
    (has : ∀ a ∈ as, ∃ c, a = .resume (.job lane) c) (hr : m.run? now as = some m') :
    ∃ l' es', WorksWith lane (Own lane) b [] l' m' es' ∧
      m'.world.trace = es' ++ b.world.trace := by
  induction as generalizing l m es with
  | nil =>
    obtain rfl := Option.some.inj hr
    exact ⟨l, es, h, htrace⟩
  | cons a as ih =>
    obtain ⟨m₁, hs, hrest⟩ := Option.bind_eq_some_iff.mp hr
    obtain ⟨⟨c, rfl⟩, has'⟩ := List.forall_mem_cons.mp has
    obtain ⟨new, hnew, -⟩ := step_answering hs
    refine ih (.own h hs (own_of_trace rfl hnew)) ?_ has' hrest
    rw [hnew, htrace, List.append_assoc]

def noticed : Machine := (plain []).launch epoch (Operation.notifyCleared.program {})

theorem noticed_reachable : noticed.Reachable :=
  ⟨{}, plain [], plain_fresh [], .step (.refl _) trivial (show (plain []).step? epoch
    (.call .notifyCleared) = some _ from rfl)⟩

def reporting (v : Verdict String) : List Action :=
  Action.goesOn .finalization 2 ++ [.resume (.job .finalization) { call := v }]

theorem exists_notice (as : List Action) (events : List Event)
    (has : ∀ a ∈ as, ∃ c, a = .resume (.job .finalization) c)
    (hrun : (noticed.run? epoch (.start .finalization :: as)).any (fun m =>
      m.engine.finalization.running.isNone && decide (m.stored = .unreported ∧
        m.world.trace = events)) = true) :
    ∃ l m, WorksWith .finalization (Own .finalization) noticed [] l m events ∧
      m.Idle .finalization ∧ m.stored = .unreported := by
  obtain ⟨m, hm, hq⟩ := (Option.any_eq_true _ _).mp hrun
  simp only [Bool.and_eq_true, Option.isNone_iff_eq_none, decide_eq_true_eq] at hq
  obtain ⟨hidle, hstored, rfl⟩ := hq
  obtain ⟨m₁, hs, hrest⟩ := Option.bind_eq_some_iff.mp hm
  have htrace : m₁.world.trace = [] ++ noticed.world.trace := by
    obtain rfl := Option.some.inj hs
    rfl
  have hstart := WorksWith.start (C := Own .finalization) (y := []) hs (own_of_trace rfl htrace)
  obtain ⟨l, es, hw, hes⟩ := hstart.run htrace has hrest
  have hall : m.world.trace = es := hes.trans (List.append_nil es)
  rw [hall]
  exact ⟨l, m, hw, hidle, hstored⟩

theorem pending_report_refused :
    ∃ b l m es, Reachable b ∧ Works .finalization (fun _ => True) b l m ∧ m.Idle .finalization ∧
      m.stored = .unreported ∧ WorksWith .finalization (Own .finalization) b [] l m es ∧
        Rearmed b.engine.config.recovery.finalizationRetry es := by
  obtain ⟨l, m, hw, hidle, hstored⟩ := exists_notice
    (reporting (.refused "503") ++ Action.goesOn .finalization 1) [
      .called (.alarm .finalizationReportRetry 300) .ok,
      .called .reportFinalized (.refused "503"), .wrote (.finalization .unreported) .ok]
    (by simp [reporting, Action.goesOn]) rfl
  obtain ⟨-, hes⟩ := pending_report noticed_reachable hw.any hidle hstored
  obtain ⟨hiff, -⟩ := hes _ hw ⟨.refused "503", by simp⟩
  exact ⟨_, l, m, _, noticed_reachable, hw.any, hidle, hstored, hw,
    hiff.mpr ⟨"503", by simp⟩⟩

theorem pending_without_alarm :
    ¬ ∀ (b m : Machine) (l : List Deed) (es : List Event), b.Reachable →
      WorksWith .finalization (Own .finalization) b [] l m es → m.Idle .finalization →
        (∃ v, .called .reportFinalized v ∈ es) → m.stored = .unreported →
          Rearmed b.engine.config.recovery.finalizationRetry es := by
  intro h
  obtain ⟨l, m, hw, hidle, hstored⟩ := exists_notice
    (reporting .ok ++ [.resume (.job .finalization) { store := .refused .io }]) [
      .wrote (.finalization .finalized) (.refused .io), .called .reportFinalized .ok,
      .wrote (.finalization .unreported) .ok]
    (by simp [reporting, Action.goesOn]) rfl
  have hrearmed := h _ m l _ noticed_reachable hw hidle ⟨.ok, by simp⟩ hstored
  exact not_rearmed (by simp) hrearmed

end Machine

end DeviceLock
