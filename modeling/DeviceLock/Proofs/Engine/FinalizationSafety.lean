import DeviceLock.Proofs.Engine.ClearedDevice
import DeviceLock.Proofs.Engine.Events
import DeviceLock.Proofs.Engine.FinalizationCache
import DeviceLock.Proofs.Program.Finalizing

namespace DeviceLock

open Program Lane

def Event.isFinalizing : Event → Bool
  | .called .reportFinalized _ | .wrote (.finalization _) _ => true
  | _ => false

theorem Event.request_of_isFinalizing {e : Event} (h : e.isFinalizing = true) :
    e.request? = some (.call .reportFinalized) ∨
      ∃ t, e.request? = some (.write (.finalization t)) := by
  cases e with
  | wrote c v => cases c <;> first | exact .inr ⟨_, rfl⟩ | cases h
  | called k v => cases k <;> first | exact .inl rfl | cases h
  | _ => cases h

theorem FinalizationState.eq_finalized {s : FinalizationState} (h : finalized.rank ≤ s.rank) :
    s = .finalized := by
  revert h
  cases s <;> decide

theorem Deed.exists_finalized {s : FinalizationState} {l : List Deed}
    (h : l.foldl Deed.finalized s ≠ s) :
    ∃ u, .request (.write (.finalization (l.foldl Deed.finalized s))) (.ok u) ∈ l := by
  induction l generalizing s with
  | nil => exact absurd rfl h
  | cons d l ih =>
    rw [List.foldl_cons] at h ⊢
    by_cases hrest : l.foldl Deed.finalized (d.finalized s) = d.finalized s
    · rw [hrest] at h ⊢
      unfold Deed.finalized at h ⊢
      split at h
      · rename_i t u
        exact ⟨u, List.mem_cons_self⟩
      · exact absurd rfl h
    · obtain ⟨u, hmem⟩ := ih hrest
      exact ⟨u, List.mem_cons_of_mem _ hmem⟩

theorem Deed.submit_of_mem {lane : Lane} {w : lane.Work} {d : Deed} (h : w ∈ d.submitted lane) :
    ∃ t, d = .act (.submit (lane.job w)) t := by
  cases d with
  | request r x => cases h
  | act a x =>
    cases a with
    | submit j =>
      obtain rfl := Engine.job_of_mem_added h
      exact ⟨x, rfl⟩
    | _ => cases h

theorem Core.Tells.stored {c c' : Core} {l : List Deed} (h : c.Tells l c') :
    c'.document.finalization = l.foldl Deed.finalized c.document.finalization := by
  induction h with
  | nil c => rfl
  | cons _ _ ih => rw [ih, Deed.finalization_effect, List.foldl_cons]

def Regime.unprompted : Regime where
  lane := Lane.footprint
  caller := .caller (· ≠ .finalization .cleared)

namespace Machine

variable {P : Action → Prop} {m₀ m m₁ m' : Machine} {now : Timestamp} {a : Action} {d : Deed}
  {l : List Deed}

def Acknowledged (m : Machine) : Prop :=
  m.world.trace.find? Event.isFinalizing = some (.called .reportFinalized .ok)

def standing (m : Machine) : Standing :=
  ⟨m.stored, m.world.trace.find? Event.isFinalizing == some (.called .reportFinalized .ok)⟩

theorem standing_of_world (h : m'.world = m.world) : m'.standing = m.standing := by
  obtain ⟨w, e⟩ := m
  obtain ⟨w', e'⟩ := m'
  obtain rfl : w' = w := h
  rfl

theorem Does.standing (h : Does m d m') : m'.standing = m.standing.next d := by
  have hstored : m'.stored = d.finalized m.stored := by
    have := congrArg (fun c => c.document.finalization) h.core.2
    exact this.trans (Deed.finalization_effect d m.core)
  have htrace := h.trace
  simp only [Machine.standing, hstored, htrace]
  cases d with
  | act a x => cases a <;> rfl
  | request r x =>
    cases r with
    | write k => cases k <;> cases x <;> rfl
    | call k => cases k <;> cases x <;> rfl
    | load => cases x <;> rfl
    | _ => rfl

theorem Plays.standing (h : Plays m l m') : m'.standing = l.foldl Standing.next m.standing := by
  induction h with
  | nil m => rfl
  | cons hd _ ih => rw [ih, hd.standing, List.foldl_cons]

theorem own_plays {lane : Lane} (h : m.step? now a = some m') (ha : a.lane? = some lane) :
    m'.Idle lane ∨ ∃ m₁, m.Plays (m.log now a) m₁ ∧ m'.world = m₁.world := by
  rcases Action.eq_of_lane? ha with rfl | ⟨c, rfl⟩
  · obtain ⟨j, hj, rfl⟩ := start_cases h
    refine .inr ⟨(m.advance now (m.opening lane j)).1, ?_, rfl⟩
    simpa only [log, hj] using (advance_after m now (m.opening lane j)).1
  · obtain ⟨p, m₁, progress, hp, hr, rfl⟩ := resume_cases h
    obtain ⟨r, next, rfl, ⟨rfl, -, -⟩ | ⟨x, m₂, hx, hadv, hl⟩⟩ := resume_after hr
    · exact .inl (by simp [Idle, settle, JobQueue.settle, JobQueue.finish])
    · have hplays := (advance_after m₂ now (next x)).1
      rw [hadv] at hplays
      refine .inr ⟨m₁, ?_, rfl⟩
      simp only [log, hp, hl]
      exact .cons (.request hx) hplays

theorem asked_finalizing {r : Request} (hm : m.Follows .usual) (h : m.asked? a = some r)
    (hr : r = .call .reportFinalized ∨ ∃ t, r = .write (.finalization t)) :
    a.lane? = some .finalization ∧
      ∃ next, (m.engine.queue .finalization).running = some (.wait r next) := by
  apply asked_by hm h
  · intro other hne hother
    rcases hr with rfl | ⟨t, rfl⟩
    · cases other with
      | policy => exact hother rfl
      | requests => exact hother
      | finalization => exact hne rfl
    · cases other with
      | policy => rcases hother with h | h <;> cases h
      | requests => cases hother
      | finalization => exact hne rfl
  · intro hcaller
    rcases hr with rfl | ⟨t, rfl⟩
    · rcases hcaller with h | ⟨s, h⟩ <;> cases h
    · rcases hcaller with h | h <;> cases h

theorem beside_standing (hm : m.Follows .usual) (h : m.step? now a = some m') (hr : a ≠ .restart)
    (ha : a.lane? ≠ some .finalization) : m'.standing = m.standing := by
  have hstored : m'.stored = m.stored := beside_spares hm h ha hr
  obtain ⟨es, htrace, hes⟩ := step_answering h
  have hnone : es.find? Event.isFinalizing = none := by
    apply List.find?_eq_none.mpr
    intro e he hfinalizing
    rcases Event.request_of_isFinalizing hfinalizing with hreq | ⟨t, hreq⟩
    · exact ha (asked_finalizing hm (hes e he _ hreq) (.inl rfl)).1
    · exact ha (asked_finalizing hm (hes e he _ hreq) (.inr ⟨t, rfl⟩)).1
  have hsame : m'.world.trace.find? Event.isFinalizing =
      m.world.trace.find? Event.isFinalizing := by
    rw [htrace, List.find?_append, hnone, Option.none_or]
  simp only [standing, hstored, hsame]

theorem opening_finalizing {j : FinalizationJob} (hm : m.Reachable) (hidle : m.Idle .finalization) :
    (m.opening .finalization j).Obeys .finalizing (fun _ _ => True) m.standing := by
  apply FinalizationJob.program_finalizing
  intro c hc
  rcases coherent_or_lapsed hm hidle with h | ⟨h, hs⟩
  · exact .inl (h c hc)
  · obtain rfl := Option.some.inj (h.symm.trans hc)
    exact .inr ⟨rfl, hs⟩

theorem Reachable.finalizes (hm : m.Reachable) :
    m.Abides .finalization .finalizing (fun _ _ => True) m.standing := by
  obtain ⟨d, m₀, hf, hr⟩ := hm
  induction hr with
  | refl => exact (hf.idle .finalization).abides
  | @step m m' now a hr _ hs ih =>
    have hm : m.Reachable := ⟨d, _, hf, hr⟩
    by_cases hrestart : a = .restart
    · subst hrestart
      obtain rfl := restart_cases hs
      have hidle : Idle { m with engine := m.engine.renewed } .finalization := rfl
      exact hidle.abides
    by_cases ha : a.lane? = some .finalization
    · obtain ⟨-, habides⟩ := ih.own hs ha
        (fun j hj => opening_finalizing hm (idle_of_next hj)) fun r x hx => by
          cases r with
          | load =>
            cases x with
            | error f => trivial
            | ok doc => exact congrArg Document.finalization (show doc = _ from log_fits hx)
          | _ => trivial
      rcases own_plays hs ha with hidle | ⟨m₁, hplays, hw⟩
      · exact hidle.abides
      · rw [standing_of_world hw, hplays.standing]
        exact habides
    · rw [beside_standing hm.usual hs hrestart ha]
      exact ih.beside hs hrestart ha

theorem Reachable.allows {r : Request} (hm : m.Reachable) (h : m.asked? a = some r)
    (hr : r = .call .reportFinalized ∨ ∃ t, r = .write (.finalization t)) :
    m.standing.Allows r := by
  obtain ⟨-, next, hrun⟩ := asked_finalizing hm.usual h hr
  exact (hm.finalizes _ hrun).1

theorem asked_of_stored (hs : m.step? now a = some m') (hne : m'.stored ≠ m.stored) :
    m.asked? a = some (.write (.finalization m'.stored)) := by
  have hr : a ≠ .restart := by
    rintro rfl
    obtain rfl := restart_cases hs
    exact hne rfl
  have hstored : m'.stored = (m.log now a).foldl Deed.finalized m.stored :=
    (step_frame hs hr).core.stored
  rw [hstored] at hne ⊢
  obtain ⟨u, hmem⟩ := Deed.exists_finalized hne
  exact asked_of_log hmem

theorem Reachable.stored (hm : m.Reachable) (hs : m.step? now a = some m') :
    m.stored.rank ≤ m'.stored.rank ∧
      (m'.stored = .finalized →
        m.stored = .finalized ∨ m.stored = .unreported ∧ m.Acknowledged) := by
  by_cases hne : m'.stored = m.stored
  · rw [hne]
    exact ⟨Nat.le_refl _, .inl⟩
  obtain ⟨hrank, htold⟩ := hm.allows (asked_of_stored hs hne) (.inr ⟨_, rfl⟩)
  refine ⟨hrank, fun hf => ?_⟩
  obtain ⟨hstored, hack⟩ := htold hf
  exact .inr ⟨hstored, eq_of_beq hack⟩

theorem notice_of_asked {t : FinalizationState} (hm : m.Reachable)
    (h : m.asked? a = some (.write (.finalization t))) (ht : t ≠ .finalized) :
    .cleared ∈ m.engine.finalization.submitted := by
  obtain ⟨-, next, hrun⟩ := asked_finalizing hm.usual h (.inr ⟨t, rfl⟩)
  have hbusy : ¬ m.Idle .finalization := not_idle_of_running hrun
  obtain ⟨d, m₀, hf, hr⟩ := hm
  obtain ⟨b, l, hb, hw⟩ := hr.works (hf.idle .finalization) hbusy
  obtain ⟨j, hj, hspan⟩ := hw.span (hb.usual (hf.follows _))
  obtain ⟨-, hsubmitted⟩ := hspan.next hbusy hj
  suffices hcleared : j = .cleared from hcleared ▸ List.mem_of_getElem? hsubmitted
  apply Classical.byContradiction
  intro hne
  have hrest := (Meets.walk (FinalizationJob.program_closing _ _ hne) (hspan.running hrun)
    fun d _ => by cases d <;> trivial).2
  exact ht (Change.finalization.inj hrest.1)

theorem admits_unprompted (m : Machine) (now : Timestamp) (ha : a ≠ .call .notifyCleared) :
    m.Admits now a .unprompted where
  start := fun lane j _ _ => opening_within m lane j
  call := fun op hop => by
    subst hop
    apply Operation.program_within
    rintro j hj rfl
    exact ha (congrArg Action.call (Operation.cleared_mem_jobs hj))
  answers := answered_of_fits fun r x _ => by
    unfold Regime.of
    split
    · rename_i lane _
      cases lane <;> trivial
    · trivial

structure Safe (m : Machine) : Prop where
  follows : m.Follows .unprompted
  noticed : .cleared ∈ m.engine.finalization.submitted → m.world.document.device = .cleared
  stored : m.stored ≠ .unfinalized → m.world.document.device = .cleared

theorem Fresh.safe {d : Document} (h : Fresh d m)
    (hd : d.finalization ≠ .unfinalized → d.device = .cleared) : m.Safe where
  follows := h.follows _
  noticed := by
    rw [h.engine.1]
    simp
  stored := by
    rw [Machine.stored, h.engine.2]
    exact hd

theorem cleared_of_notice {t : Ticket} (hm : m.Reachable) (h : m.Follows .unprompted)
    (hs : m.step? now a = some m') (ha : a ≠ .call .notifyCleared)
    (ht : .act (.submit (.finalization .cleared)) t ∈ m.log now a) :
    m'.world.document.device = .cleared := by
  have hwithin := (h.step hs (admits_unprompted m now ha)).1 _ ht
  unfold Regime.of at hwithin
  split at hwithin
  · rename_i lane hlane
    cases lane with
    | policy => exact hwithin.elim
    | finalization => exact hwithin.elim
    | requests =>
      obtain ⟨hall, hdevice, -⟩ := hm.seals.own hs hlane
      rw [hdevice]
      exact Discipline.sealed_of_submit hall ht
  · exact absurd rfl hwithin

theorem Safe.step (h : m.Safe) (hm : m.Reachable) (hs : m.step? now a = some m')
    (ha : a ≠ .call .notifyCleared) : m'.Safe := by
  have hfollows := (h.follows.step hs (admits_unprompted m now ha)).2
  have hkept := (hm.seals.step hm.usual hs).2
  refine ⟨hfollows, fun hmem => ?_, fun hne => ?_⟩
  · by_cases hr : a = .restart
    · subst hr
      obtain rfl := restart_cases hs
      cases hmem
    have hsub : m'.engine.finalization.submitted = m.engine.finalization.submitted ++
        (m.log now a).flatMap (Deed.submitted .finalization) :=
      (step_submitted hs hr .finalization).1
    rw [hsub] at hmem
    rcases List.mem_append.mp hmem with hmem | hmem
    · exact hkept (h.noticed hmem)
    · obtain ⟨d, hd, hjob⟩ := List.mem_flatMap.mp hmem
      obtain ⟨t, rfl⟩ := Deed.submit_of_mem hjob
      exact cleared_of_notice hm h.follows hs ha hd
  · apply hkept
    by_cases hsame : m'.stored = m.stored
    · exact h.stored (hsame ▸ hne)
    have hasked := asked_of_stored hs hsame
    by_cases hf : m'.stored = .finalized
    · have hstored := ((hm.allows hasked (.inr ⟨_, rfl⟩)).2 hf).1
      apply h.stored
      rw [show m.stored = _ from hstored]
      simp
    · exact h.noticed (notice_of_asked hm hasked hf)

theorem safe_of_reaches {d : Document} (hf : Fresh d m₀)
    (hd : d.finalization ≠ .unfinalized → d.device = .cleared)
    (h : Reaches (· ≠ .call .notifyCleared) m₀ m) : m.Safe := by
  induction h with
  | refl => exact hf.safe hd
  | step hr ha hs ih => exact ih.step ⟨d, _, hf, hr.mono fun _ _ => trivial⟩ hs ha

theorem Reachable.events (hm : m.Reachable) (hs : m.step? now a = some m') :
    ∃ es, m'.world.trace = es ++ m.world.trace ∧
      (∀ v, .called .reportFinalized v ∈ es → m.stored = .unreported) ∧
        ∀ v, .wrote (.finalization .finalized) v ∈ es → m.Acknowledged := by
  obtain ⟨es, htrace, hes⟩ := step_answering hs
  refine ⟨es, htrace, fun v hv => ?_, fun v hv => ?_⟩
  · exact hm.allows (hes _ hv _ rfl) (.inl rfl)
  · have hallowed := hm.allows (hes _ hv _ rfl) (.inr ⟨_, rfl⟩)
    exact eq_of_beq (hallowed.2 rfl).2

theorem Reachable.unreported (hm : m.Reachable) (h : Reaches P m m') (hf : m.stored = .finalized) :
    m'.stored = .finalized ∧ (∀ a, m'.asked? a ≠ some (.call .reportFinalized)) ∧
      ∃ es, m'.world.trace = es ++ m.world.trace ∧ ∀ v, .called .reportFinalized v ∉ es := by
  have hunasked {n : Machine} (hn : n.Reachable) (hstored : n.stored = .finalized) (a : Action) :
      n.asked? a ≠ some (.call .reportFinalized) := by
    intro hasked
    have hunreported : n.stored = .unreported := hn.allows hasked (.inl rfl)
    rw [hstored] at hunreported
    cases hunreported
  induction h with
  | refl => exact ⟨hf, hunasked hm hf, [], rfl, by simp⟩
  | step hr ha hs ih =>
    obtain ⟨hstored, -, es, htrace, hes⟩ := ih
    have hm₁ := hm.trans hr
    obtain ⟨fs, htrace', hreports, -⟩ := hm₁.events hs
    have hrank := (hm₁.stored hs).1
    rw [hstored] at hrank
    have hfinalized := FinalizationState.eq_finalized hrank
    refine ⟨hfinalized, hunasked (hm.trans (hr.step ha hs)) hfinalized, fs ++ es, ?_,
      fun v hv => ?_⟩
    · rw [htrace', htrace, List.append_assoc]
    · rcases List.mem_append.mp hv with hv | hv
      · have hunreported := hreports v hv
        rw [hstored] at hunreported
        cases hunreported
      · exact hes v hv

/-- If the end is stored for a cleared device only, this remains so whatever is called, a further
notice apart. What is stored of the end never goes back, the report is asked for and answered while
it is stored as unreported, that it was sent is stored right after it was acknowledged, and it is
not asked for again. -/
theorem finalization_safety {d : Document} (hf : Fresh d m₀)
    (hd : d.finalization ≠ .unfinalized → d.device = .cleared)
    (h : Reaches (· ≠ .call .notifyCleared) m₀ m) :
    (m.stored ≠ .unfinalized → m.world.document.device = .cleared) ∧
      (∀ a, m.asked? a = some (.call .reportFinalized) → m.stored = .unreported) ∧
      (∀ now a m', m.step? now a = some m' →
        m.stored.rank ≤ m'.stored.rank ∧
          (m'.stored = .finalized →
            m.stored = .finalized ∨ m.stored = .unreported ∧ m.Acknowledged) ∧
          ∃ es, m'.world.trace = es ++ m.world.trace ∧
            (∀ v, .called .reportFinalized v ∈ es → m.stored = .unreported) ∧
              ∀ v, .wrote (.finalization .finalized) v ∈ es → m.Acknowledged) ∧
      (m.stored = .finalized → ∀ m', Reaches (fun _ => True) m m' →
        m'.stored = .finalized ∧ (∀ a, m'.asked? a ≠ some (.call .reportFinalized)) ∧
          ∃ es, m'.world.trace = es ++ m.world.trace ∧ ∀ v, .called .reportFinalized v ∉ es) := by
  have hm : m.Reachable := ⟨d, m₀, hf, h.mono fun _ _ => trivial⟩
  refine ⟨(safe_of_reaches hf hd h).stored, fun a ha => hm.allows ha (.inl rfl),
    fun now a m' hs => ?_, fun hfin m' hr => ?_⟩
  · obtain ⟨hrank, hafter⟩ := hm.stored hs
    exact ⟨hrank, hafter, hm.events hs⟩
  · exact hm.unreported hr hfin

theorem finalization_safety_cleared :
    ∃ m, Reaches (· ≠ .call .notifyCleared) (plain ["restrictions"]) m ∧ m.stored = .finalized ∧
      m.world.document.device = .cleared ∧ ∀ m', Reaches (fun _ => True) m m' →
        m'.stored = .finalized := by
  obtain ⟨m, hr, -, -, hstored⟩ := exists_cleared
  have hd : ({} : Document).finalization ≠ .unfinalized → ({} : Document).device = .cleared :=
    fun h => absurd rfl h
  obtain ⟨hcleared, -, -, hkept⟩ := finalization_safety (plain_fresh _) hd hr
  have hstored : m.stored = .finalized := hstored
  exact ⟨m, hr, hstored, hcleared (by rw [hstored]; decide), fun m' h => (hkept hstored m' h).1⟩

end Machine

end DeviceLock
