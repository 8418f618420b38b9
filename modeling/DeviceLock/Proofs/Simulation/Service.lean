import DeviceLock.Proofs.Engine.Pursuit
import DeviceLock.Proofs.Store.Working
import DeviceLock.Simulation.Session

namespace DeviceLock

open Program

namespace Scheduler

variable {ι : Type} [DecidableEq ι] {s : Scheduler ι} {w : ActivationWork ι}

theorem starts (h : s.slot = some w) (hp : w.phase = .starting) (now : Timestamp) :
    ∃ s₁ w₁, s.step? now .start = some s₁ ∧ s₁.slot = some w₁ ∧ w₁.phase = .entering 1 ∧
      w₁.id = w.id ∧ w₁.mode = w.mode :=
  ⟨_, _, by simp [step?, h, hp], s.attempt_slot now w 1, rfl, rfl, rfl⟩

theorem completes {n : Nat} (h : s.slot = some w) (hp : w.phase = .entering n) (now : Timestamp) :
    ∃ s₁ s₂ w₂, s.step? now .entered = some s₁ ∧
      s₁.step? now (.observed (some w.mode)) = some s₂ ∧
        s₂.slot = some w₂ ∧ w₂.phase = .stopped := by
  have hentered : s.step? now .entered = some (s.setSlot { w with phase := .observing n }) := by
    simp [step?, h, hp]
  have hobserved : (s.setSlot { w with phase := .observing n }).step? now
      (.observed (some w.mode)) = some ((s.setSlot { w with phase := .stopped }).publish
        ⟨w.id, w.mode, .completed, n, none, now⟩) := by
    simp [step?, setSlot]
  exact ⟨_, _, _, hentered, hobserved, slot_publish _ _ _ rfl, rfl⟩

end Scheduler

namespace Machine

def hushed (m : Machine) : Machine := { m with world := { m.world with trace := [] } }

variable {S : Setting} {m : Machine} {i n : Nat} {K : Except Fault Reply → Bench → Prop}

theorem Sound.hushed (h : m.Sound) : m.hushed.Sound where
  ordered := h.ordered
  informed := ⟨h.informed.job, h.informed.client⟩
  usual := ⟨h.usual.job, h.usual.client⟩
  applied := h.applied

theorem Pursues.hushed (h : m.Pursues S i K n) : m.hushed.Pursues S i K n where
  sound := h.sound.hushed
  bound := h.bound.alike ⟨fun _ => rfl, rfl⟩ rfl
  affords := h.affords

end Machine

namespace Simulation

def setting (s : Simulation) : Setting where
  wall := s.wall
  answer
    | .setupComplete => s.switches.setupComplete
    | .userUnlocked => s.switches.userUnlocked

structure Serves (s : Simulation) (m : Machine) : Prop where
  engines : s.engines = [m.engine]
  world : s.world = m.world
  hushed : m.world.trace = []
  config : s.config = m.engine.config
  capabilities : m.engine.capabilities.length = s.scripted.length
  succeeds : ∀ c ∈ s.scripted, ∀ step, c.behaviour step = .ends (.returned true)
  agenda : s.agenda.entries = []
  script : s.script = []
  failures : s.switches.failures = []
  unended : ∀ reason, .called (.terminate reason) ∉ s.log

def Stores (path : String) (s : Simulation) (d : Document) : Prop :=
  ∃ k, s.disk = some k ∧ k.store.path = path ∧ k.store.Works k.files d

def placing (s : Simulation) (m : Machine) : Simulation :=
  { s with world := { m.world with trace := [] }, engines := [m.engine] }

variable {S : Setting} {path : String} {s s' : Simulation} {m m' : Machine} {a : Action}
  {i n : Nat} {K : Except Fault Reply → Bench → Prop} {f : Machine → Option Machine}

namespace Serves

theorem onEngine (h : s.Serves m) (f : Machine → Option Machine) :
    s.onEngine 0 f = (f m).map fun m' => (s.placing m', m'.world.trace.reverse) := by
  have hworld : { s.world with trace := [] } = m.world := by
    rw [h.world, ← h.hushed]
  have hengine : s.engines[0]? = some m.engine := by rw [h.engines]; rfl
  have hset (e : Engine) : s.engines.set 0 e = [e] := by rw [h.engines]; rfl
  simp only [Simulation.onEngine, hworld, hengine, hset, Option.bind_eq_bind, Option.bind_some]
  cases f m <;> rfl

theorem quietly (h : s.Serves m) (hs : f m = some m') : s.quietly 0 f = s.placing m' := by
  rw [Simulation.quietly, h.onEngine, hs]
  rfl

theorem quietly_none (h : s.Serves m) (hs : f m = none) : s.quietly 0 f = s := by
  rw [Simulation.quietly, h.onEngine, hs]
  rfl

theorem placing (h : s.Serves m) (hconfig : m'.engine.config = m.engine.config)
    (hcapabilities : m'.engine.capabilities = m.engine.capabilities) :
    (s.placing m').Serves m'.hushed where
  engines := rfl
  world := rfl
  hushed := rfl
  config := h.config.trans hconfig.symm
  capabilities := hcapabilities ▸ h.capabilities
  succeeds := h.succeeds
  agenda := h.agenda
  script := h.script
  failures := h.failures
  unended := h.unended

theorem steps {now : Timestamp} (h : s.Serves m) (hs : m.step? now a = some m')
    (ha : a ≠ .restart) : (s.placing m').Serves m'.hushed :=
  h.placing (Machine.step_frame hs ha).config (Machine.capabilities_of_step hs ha)

theorem seen (h : s.Serves m) (mode : Option LockMode) (log : List LogEntry)
    (screen : List ScreenEntry) (counted : List Metric)
    (hlog : ∀ reason, .called (.terminate reason) ∉ log) :
    Serves { s with mode, log, screen, counted } m :=
  ⟨h.engines, h.world, h.hushed, h.config, h.capabilities, h.succeeds, h.agenda, h.script,
    h.failures, hlog⟩

theorem note (h : s.Serves m) {e : LogEntry} (he : ∀ reason, e ≠ .called (.terminate reason)) :
    (s.note e).Serves m :=
  h.seen s.mode _ s.screen s.counted fun reason hmem =>
    (List.mem_cons.mp hmem).elim (fun heq => he reason heq.symm) (h.unended reason)

end Serves

structure Undertakes (S : Setting) (path : String) (i : Nat)
    (K : Except Fault Reply → Bench → Prop) (n : Nat) (s : Simulation) (m : Machine) : Prop where
  serves : s.Serves m
  setting : s.setting = S
  stored : s.Stores path m.world.document
  pursues : m.Pursues S i K n

namespace Undertakes

theorem note (h : Undertakes S path i K n s m) {e : LogEntry}
    (he : ∀ reason, e ≠ .called (.terminate reason)) : Undertakes S path i K n (s.note e) m :=
  ⟨h.serves.note he, h.setting, h.stored, h.pursues⟩

theorem runCallback (h : Undertakes S path i K n s m) (pass k : Nat) (name : String) :
    ∃ m', Undertakes S path i K n (s.runCallback 0 pass k name (.ends (.returned true))) m' ∧
      ∀ q j, m'.Open q j → m.Open q j ∧ (q, j) ≠ (pass, k) := by
  rw [Simulation.runCallback]
  by_cases hopen : m.Open pass k
  · obtain ⟨m', hs⟩ := hopen.ends s.wall (.returned true)
    have hstep : m.endCallback? pass k (.returned true) = some m' := hs
    rw [h.serves.quietly hstep]
    refine ⟨m'.hushed, ⟨h.serves.steps hs (by simp), h.setting, ?_,
      (h.pursues.callbackEnds hs).hushed⟩, fun q j hq => ?_⟩
    · obtain ⟨p, -, rfl⟩ := Machine.callbackEnds_cases hs
      exact h.stored
    · have hq : m'.Open q j := hq
      exact hq.of_callbackEnds hs
  · have hstep : m.endCallback? pass k (.returned true) = none := by
      rw [Option.eq_none_iff_forall_ne_some]
      intro m' hs
      have hends : m.step? s.wall (.callbackEnds pass k (.returned true)) = some m' := hs
      obtain ⟨p, hp, hk⟩ := Machine.open_of_callbackEnds hends
      exact hopen ⟨p, hp, hk⟩
    rw [h.serves.quietly_none hstep]
    refine ⟨m, h, fun q j hq => ⟨hq, ?_⟩⟩
    rintro ⟨⟩
    exact hopen hq

theorem issueFrom (h : Undertakes S path i K n s m) (pass : Nat) (step : PolicyStep)
    (cs : List ScriptedCapability)
    (hcs : ∀ c ∈ cs, ∀ step, c.behaviour step = .ends (.returned true)) (k : Nat) :
    ∃ m', Undertakes S path i K n ((cs.zipIdx k).foldl (fun s c =>
        (s.note (.callback c.1.name step)).runCallback 0 pass c.2 c.1.name (c.1.behaviour step))
          s) m' ∧
      ∀ q j, m'.Open q j → m.Open q j ∧ ¬ (q = pass ∧ k ≤ j ∧ j < k + cs.length) := by
  induction cs generalizing k s m with
  | nil => exact ⟨m, h, fun q j hq => ⟨hq, by simp⟩⟩
  | cons c cs ih =>
    obtain ⟨hc, hcs⟩ := List.forall_mem_cons.mp hcs
    have hnoted := h.note (e := .callback c.name step) (by simp)
    obtain ⟨m₁, h₁, hopen₁⟩ := hnoted.runCallback pass k c.name
    rw [List.zipIdx_cons, List.foldl_cons, hc step]
    obtain ⟨m', h', hopen'⟩ := ih h₁ hcs (k + 1)
    refine ⟨m', h', fun q j hq => ?_⟩
    obtain ⟨hq₁, hlater⟩ := hopen' q j hq
    obtain ⟨hq, hfirst⟩ := hopen₁ q j hq₁
    refine ⟨hq, ?_⟩
    rintro ⟨rfl, hle, hlt⟩
    rw [List.length_cons] at hlt
    have hj : j ≠ k := by
      rintro rfl
      exact hfirst rfl
    exact hlater ⟨rfl, by omega, by omega⟩

theorem issue (h : Undertakes S path i K n s m) (pass : Nat) (step : PolicyStep) :
    ∃ m', Undertakes S path i K n (s.issue 0 pass step) m' ∧
      ∀ q j, m'.Open q j → m.Open q j ∧ q ≠ pass := by
  obtain ⟨m', h', hopen⟩ := h.issueFrom pass step s.scripted h.serves.succeeds 0
  refine ⟨m', h', fun q j hq => ?_⟩
  obtain ⟨hq, hnot⟩ := hopen q j hq
  refine ⟨hq, fun he => hnot ⟨he, Nat.zero_le j, ?_⟩⟩
  have hlt := h.pursues.sound.applied.lt_of_open hq
  rw [h.serves.capabilities] at hlt
  omega

theorem react (h : Undertakes S path i K n s m) {e : Event}
    (he : ∀ reason v, e ≠ .called (.terminate reason) v) :
    ∃ m', Undertakes S path i K n (s.react 0 e) m' ∧
      ∀ q j, m'.Open q j → m.Open q j ∧ e.pass? ≠ some q := by
  have hseen {t : Simulation} (ht : Undertakes S path i K n t m) (hpass : e.pass? = none) :
      ∃ m', Undertakes S path i K n t m' ∧ ∀ q j, m'.Open q j → m.Open q j ∧ e.pass? ≠ some q :=
    ⟨m, ht, fun q j hq => ⟨hq, by simp [hpass]⟩⟩
  cases e with
  | wrote c v => exact hseen (h.note (by simp)) rfl
  | called c v =>
    have hcalled (hc : ∀ reason, c ≠ .terminate reason) :
        Undertakes S path i K n (s.note (.called c)) m :=
      h.note fun reason heq => hc reason (LogEntry.called.inj heq)
    cases c with
    | exit =>
      refine hseen ?_ rfl
      rw [Simulation.react]
      split
      · exact ⟨h.serves.seen _ _ _ _ h.serves.unended, h.setting, h.stored, h.pursues⟩
      · exact ⟨h.serves.seen _ _ _ _ h.serves.unended, h.setting, h.stored, h.pursues⟩
    | terminate reason => exact absurd rfl (he reason v)
    | _ => exact hseen (hcalled (by simp)) rfl
  | issued pass p d step =>
    obtain ⟨m', h', hopen⟩ := h.issue pass step
    exact ⟨m', h', fun q j hq =>
      ⟨(hopen q j hq).1, fun heq => (hopen q j hq).2 (Option.some.inj heq).symm⟩⟩
  | counted metric =>
    exact hseen ⟨h.serves.seen _ _ _ _ h.serves.unended, h.setting, h.stored, h.pursues⟩ rfl

theorem reacts {es : List Event} (h : Undertakes S path i K n s m)
    (hes : ∀ e ∈ es, ∀ reason v, e ≠ .called (.terminate reason) v) :
    ∃ m', Undertakes S path i K n (es.foldl (fun s e => s.react 0 e) s) m' ∧
      ∀ q j, m'.Open q j → m.Open q j ∧ ∀ e ∈ es, e.pass? ≠ some q := by
  induction es generalizing s m with
  | nil => exact ⟨m, h, fun q j hq => ⟨hq, by simp⟩⟩
  | cons e es ih =>
    obtain ⟨he, hes⟩ := List.forall_mem_cons.mp hes
    obtain ⟨m₁, h₁, hopen₁⟩ := h.react he
    obtain ⟨m', h', hopen'⟩ := ih h₁ hes
    refine ⟨m', h', fun q j hq => ?_⟩
    obtain ⟨hq₁, hlater⟩ := hopen' q j hq
    obtain ⟨hq, hfirst⟩ := hopen₁ q j hq₁
    exact ⟨hq, List.forall_mem_cons.mpr ⟨hfirst, hlater⟩⟩

theorem acts {k : Nat} (hserves : s.Serves m) (hsetting : s.setting = S) (hf : f m = some m')
    (hs : m.step? S.wall a = some m') (ha : a.Orderly)
    (hends : ∀ n k result, a ≠ .callbackEnds n k result) (hstored : s.Stores path m'.world.document)
    (hpursues : m'.Pursues S i K k) (hended : m.CallbacksEnded)
    (hcalls : ∀ reason x, .request (.call (.terminate reason)) x ∉ m.log S.wall a) :
    ∃ s' m₁, s.act? 0 f = some s' ∧ Undertakes S path i K k s' m₁ ∧ m₁.CallbacksEnded := by
  have hr : a ≠ .restart := by
    rintro rfl
    exact ha
  have htrace : m'.world.trace.reverse = (m.log S.wall a).filterMap Deed.event? := by
    rw [Machine.step_trace hs ha, hserves.hushed, List.append_nil, List.reverse_reverse]
  have hplaced : Undertakes S path i K k (s.placing m') m'.hushed :=
    ⟨hserves.steps hs hr, hsetting, hstored, hpursues.hushed⟩
  have hquiet : ∀ e ∈ m'.world.trace.reverse, ∀ reason v, e ≠ .called (.terminate reason) v := by
    rw [htrace]
    rintro e he reason v rfl
    obtain ⟨d, hd, hevent⟩ := List.mem_filterMap.mp he
    obtain ⟨x, rfl⟩ := Deed.request_of_event hevent rfl
    exact hcalls reason x hd
  obtain ⟨m₁, h₁, hopen₁⟩ := hplaced.reacts hquiet
  refine ⟨_, m₁, ?_, h₁, fun q j hq => ?_⟩
  · rw [Simulation.act?, hserves.onEngine, hf]
    rfl
  · obtain ⟨hq, hnot⟩ := hopen₁ q j hq
    have hq : m'.Open q j := hq
    rcases hq.of_step hs ha hends with hq | ⟨e, he, hpass⟩
    · exact hended q j hq
    · exact hnot e (htrace ▸ he) hpass

end Undertakes

section Conduct

theorem verdict_ok (hs : s.switches.failures = []) (p : Point) : s.switches.verdict p = .ok := by
  simp [Switches.verdict, hs]

theorem switches_willing (hs : s.switches.failures = []) (r : Request) :
    (s.switches.conduct r).Willing ∧
      ∀ q, r = .ask q → (s.switches.conduct r).answer = some (s.setting.answer q) := by
  have hstorage (p : Point) : s.switches.storage p = .ok := by
    simp [Switches.storage, verdict_ok hs p]
  cases r with
  | call c =>
    refine ⟨⟨rfl, ?_, by simp [Switches.conduct]⟩, by simp⟩
    simp only [Switches.conduct]
    cases Point.ofCall? c with
    | none => rfl
    | some p => exact verdict_ok hs p
  | ask q =>
    cases q with
    | setupComplete => exact ⟨⟨rfl, rfl, by simp [Switches.conduct]⟩, by rintro q ⟨⟩; rfl⟩
    | userUnlocked => exact ⟨⟨rfl, rfl, by simp [Switches.conduct]⟩, by rintro q ⟨⟩; rfl⟩
  | write c => exact ⟨⟨hstorage _, rfl, by simp [Switches.conduct]⟩, by simp⟩
  | cursor => exact ⟨⟨hstorage _, rfl, by simp [Switches.conduct]⟩, by simp⟩
  | load => exact ⟨⟨hstorage _, rfl, by simp [Switches.conduct]⟩, by simp⟩
  | join n => exact ⟨⟨rfl, rfl, by simp [Switches.conduct]⟩, by simp⟩
  | await t => exact ⟨⟨rfl, rfl, by simp [Switches.conduct]⟩, by simp⟩

theorem consult_ok {k : Disk} {d : Document} (hk : k.store.Works k.files d) (e : Engine)
    (r : Request) : ∃ k', consult k e r = (k', .ok) ∧ k'.store.path = k.store.path ∧
      k'.store.Works k'.files (r.leaves d) := by
  have hload : ∃ k', k.load = (k', .ok) ∧ k'.store.path = k.store.path ∧
      k'.store.Works k'.files d := by
    refine ⟨{ k with store := (k.store.load k.files {}).1 }, ?_, FileStore.load_path _ _ _,
      hk.loaded⟩
    have hverdict : Verdict.ofExcept (k.store.load k.files {}).2 = .ok := by
      rw [hk.load]
      rfl
    exact Prod.ext rfl hverdict
  cases r with
  | cursor =>
    rw [consult]
    split
    · exact hload
    · exact ⟨k, rfl, rfl, hk⟩
  | load => exact hload
  | write c =>
    obtain ⟨gs, hw, hworks⟩ := hk.write c
    refine ⟨⟨gs, { k.store with cache := some (c.apply d) }⟩, ?_, rfl, hworks⟩
    rw [consult, Disk.write, hw]
    rfl
  | _ => exact ⟨k, rfl, rfl, hk⟩

theorem Serves.conduct (h : s.Serves m) {d : Document} (hd : s.Stores path d) (e : Engine)
    (r : Request) : ∃ s' c, s.conduct e r = (s', c) ∧ s'.Serves m ∧ s'.setting = s.setting ∧
      s'.Stores path (r.leaves d) ∧ c.Willing ∧
        ∀ q, r = .ask q → c.answer = some (s.setting.answer q) := by
  obtain ⟨hwilling, hanswer⟩ := switches_willing h.failures r
  obtain ⟨k, hk, hpath, hworks⟩ := hd
  obtain ⟨k', hconsult, hpath', hworks'⟩ := consult_ok hworks e r
  refine ⟨{ s with disk := some k' }, { s.switches.conduct r with store := .ok }, ?_, ?_, rfl,
    ⟨k', rfl, hpath'.trans hpath, hworks'⟩, ⟨rfl, hwilling.call, hwilling.answer⟩, hanswer⟩
  · simp only [Simulation.conduct, hk, hwilling.store, hconsult]
  · exact ⟨h.engines, h.world, h.hushed, h.config, h.capabilities, h.succeeds, h.agenda, h.script,
      h.failures, h.unended⟩

end Conduct

theorem request_eq_asked (m : Machine) (τ : Task) (c : Conduct) :
    m.engine.request? τ = m.asked? (.resume τ c) := by
  cases τ with
  | job lane =>
    cases lane with
    | policy =>
      simp only [Engine.request?, Machine.asked?, Engine.queue]
      rcases m.engine.policy.running with _ | _ | _ | _ <;> rfl
    | requests =>
      simp only [Engine.request?, Machine.asked?, Engine.queue]
      rcases m.engine.requests.running with _ | _ | _ | _ <;> rfl
    | finalization =>
      simp only [Engine.request?, Machine.asked?, Engine.queue]
      rcases m.engine.finalization.running with _ | _ | _ | _ <;> rfl
  | client i =>
    simp only [Engine.request?, Machine.asked?]
    rcases m.engine.clients[i]? with _ | ⟨⟨_ | _ | _⟩ | _ | _ | _⟩ <;> rfl

theorem Serves.act_of_step (h : s.Serves m) (hs : f m = some m') :
    s.act? 0 f ≠ none := by
  simp [act?, h.onEngine, hs]

theorem Serves.act_some (h : s.Serves m) (hs : s.act? 0 f = some s') : ∃ m', f m = some m' := by
  rw [act?, h.onEngine] at hs
  cases hm : f m with
  | none => simp [hm] at hs
  | some m' => exact ⟨m', rfl⟩

theorem Undertakes.runTask (h : Undertakes S path i K n s m) (hended : m.CallbacksEnded)
    {τ : Task} (hs : s.runTask? 0 m.engine τ = some s') :
    ∃ k < n, ∃ m', Undertakes S path i K k s' m' ∧ m'.CallbacksEnded := by
  unfold runTask? at hs
  cases hrequest : m.engine.request? τ with
  | some r =>
    simp only [hrequest] at hs
    obtain ⟨s₁, c, hconduct, hserves, hsetting, hstored, hwilling, hanswer⟩ :=
      h.serves.conduct h.stored m.engine r
    have hsetting := hsetting.trans h.setting
    simp only [hconduct] at hs
    rw [show s₁.wall = S.wall from congrArg Setting.wall hsetting] at hs
    obtain ⟨m₁, hf⟩ := hserves.act_some hs
    have hstep : m.step? S.wall (.resume τ c) = some m₁ := hf
    have hasked : m.asked? (.resume τ c) = some r := (request_eq_asked m τ c).symm.trans hrequest
    have hsuits : (Action.resume τ c).Suits S m := by
      refine ⟨hwilling, fun σ b q he hq => ?_⟩
      cases he
      rw [← h.setting]
      exact hanswer q (Option.some.inj (hasked.symm.trans hq))
    obtain ⟨⟨k, hk, hpursues⟩, hcalls⟩ := h.pursues.works hstep hsuits rfl
    obtain ⟨t, m', hact, h', hended'⟩ := Undertakes.acts (f := fun m => m.resumeTask? S.wall c τ)
      hserves hsetting hf hstep hwilling.calm (by simp)
      (Machine.resume_document hstep hwilling hasked ▸ hstored) hpursues hended hcalls
    obtain rfl := Option.some.inj (hs.symm.trans hact)
    exact ⟨k, hk, m', h', hended'⟩
  | none =>
    cases τ with
    | client j => simp [hrequest] at hs
    | job lane =>
      simp only [hrequest] at hs
      rw [show s.wall = S.wall from congrArg Setting.wall h.setting] at hs
      obtain ⟨m₁, hf⟩ := h.serves.act_some hs
      have hstep : m.step? S.wall (.start lane) = some m₁ := hf
      obtain ⟨⟨k, hk, hpursues⟩, hcalls⟩ := h.pursues.works hstep ⟨trivial, by simp⟩ rfl
      obtain ⟨t, m', hact, h', hended'⟩ := Undertakes.acts (f := fun m => m.start? S.wall lane)
        h.serves h.setting hf hstep trivial (by simp) (Machine.start_document hstep ▸ h.stored)
        hpursues hended hcalls
      obtain rfl := Option.some.inj (hs.symm.trans hact)
      exact ⟨k, hk, m', h', hended'⟩

section Activation

theorem Undertakes.activate (h : Undertakes S path i K n s m) (hended : m.CallbacksEnded)
    {t : TaskStep} {c : Scheduler Nat} (hc : m.engine.scheduler.step? s.wall t = some c) :
    ∃ k ≤ n, ∃ m', s.activate 0 t = s.placing m' ∧ m'.engine.scheduler = c ∧
      Undertakes S path i K k (s.activate 0 t) m' ∧ m'.CallbacksEnded ∧
        (t = .start → k < n) := by
  have hs : m.step? s.wall (.activation t) = some { m with engine.scheduler := c } := by
    simp [Machine.step?, Machine.activationStep?, hc]
  have hstep : m.activationStep? s.wall t = some { m with engine.scheduler := c } := hs
  obtain ⟨k, hk, hpursues, hstart⟩ := h.pursues.activation hs
  have hplaced : s.activate 0 t = s.placing { m with engine.scheduler := c } :=
    h.serves.quietly hstep
  refine ⟨k, hk, Machine.hushed { m with engine.scheduler := c }, hplaced, rfl, ?_, hended, hstart⟩
  rw [hplaced]
  exact ⟨h.serves.steps hs (by simp), h.setting, h.stored, hpursues.hushed⟩

theorem Serves.scheduler (h : s.Serves m) : s.scheduler? 0 = some m.engine.scheduler := by
  simp [scheduler?, h.engines]

theorem Undertakes.observe (h : Undertakes S path i K n s m) (hended : m.CallbacksEnded)
    {w : ActivationWork Nat} {attempt : Nat} (hw : m.engine.scheduler.slot = some w)
    (hphase : w.phase = .entering attempt) (hmode : s.mode = some w.mode) (work : Nat) :
    ∃ k ≤ n, ∃ m', Undertakes S path i K k (s.observe 0 work) m' ∧ m'.CallbacksEnded := by
  obtain ⟨c₁, c₂, w₂, hentered, hobserved, hslot, hstopped⟩ := Scheduler.completes hw hphase s.wall
  obtain ⟨k₁, hk₁, m₁, hplaced, rfl, h₁, hended₁, -⟩ := h.activate hended hentered
  have hwall : (s.activate 0 .entered).wall = s.wall := by rw [hplaced]; rfl
  have hmode : (s.activate 0 .entered).mode = some w.mode := by rw [hplaced]; exact hmode
  rw [Simulation.observe]
  generalize s.activate 0 .entered = t at h₁ hwall hmode
  rw [hmode]
  obtain ⟨k₂, hk₂, m₂, -, rfl, h₂, hended₂, -⟩ := h₁.activate hended₁ (hwall ▸ hobserved)
  -- The work has been stopped, so nothing is left for the clock to wake.
  have hrest : (t.activate 0 (.observed (some w.mode))).restAfterAttempt 0 work =
      t.activate 0 (.observed (some w.mode)) := by
    simp only [restAfterAttempt, phase?, h₂.serves.scheduler, Option.bind_eq_bind,
      Option.bind_some, hslot, hstopped]
    split
    · rename_i hresting
      split at hresting <;> cases hresting
    · rfl
  rw [hrest]
  exact ⟨k₂, Nat.le_trans hk₂ hk₁, m₂, h₂, hended₂⟩

theorem Undertakes.startWork (h : Undertakes S path i K n s m) (hended : m.CallbacksEnded)
    (hs : s.startWork? 0 = some s') :
    ∃ k < n, ∃ m', Undertakes S path i K k s' m' ∧ m'.CallbacksEnded := by
  simp only [startWork?, h.serves.scheduler, Option.bind_eq_bind, Option.bind_some,
    Option.bind_eq_some_iff] at hs
  obtain ⟨w, hw, hs⟩ := hs
  split at hs
  · rename_i hphase
    obtain rfl := Option.some.inj hs
    obtain ⟨c₁, w₁, hstart, hslot, hentering, -, hmode⟩ := Scheduler.starts hw hphase s.wall
    obtain ⟨k₁, -, m₁, -, rfl, h₁, hended₁, hlt⟩ := h.activate hended hstart
    rw [enterMode]
    generalize s.activate 0 .start = s₁ at h₁
    dsimp only [noteScreen]
    simp only [h₁.serves.script, List.head?_nil, Option.getD_none, List.tail_nil, runEntry]
    have hentered : Undertakes S path i K k₁
        { s₁ with screen := ⟨s₁.now, some w.mode⟩ :: s₁.screen, script := [], mode := some w.mode }
          m₁ := by
      exact ⟨{ h₁.serves with script := rfl }, h₁.setting, h₁.stored, h₁.pursues⟩
    obtain ⟨k, hk, m', h', hended'⟩ :=
      hentered.observe hended₁ hslot hentering (congrArg some hmode.symm) w.id
    exact ⟨k, Nat.lt_of_le_of_lt hk (hlt rfl), m', h', hended'⟩
  · cases hs

end Activation

section Settle

theorem Serves.runOnce (h : s.Serves m) :
    s.runOnce? = (s.startWork? 0).or (m.engine.tasks.findSome? (s.runTask? 0 m.engine)) := by
  simp [runOnce?, Agenda.pop?, h.agenda, h.engines, List.range_succ]

theorem Undertakes.step (h : Undertakes S path i K n s m) (hended : m.CallbacksEnded)
    (hs : s.runOnce? = some s') :
    ∃ k < n, ∃ m', Undertakes S path i K k s' m' ∧ m'.CallbacksEnded := by
  rw [h.serves.runOnce, Option.or_eq_some_iff] at hs
  rcases hs with hs | ⟨-, hs⟩
  · exact h.startWork hended hs
  · obtain ⟨τ, -, hs⟩ := List.exists_of_findSome?_eq_some hs
    exact h.runTask hended hs

theorem Undertakes.not_ready (h : Undertakes S path i K n s m) (hended : m.CallbacksEnded)
    (hs : s.runOnce? = none) : ¬ m.Ready := by
  rw [h.serves.runOnce, Option.or_eq_none_iff] at hs
  have htasks := List.findSome?_eq_none_iff.mp hs.2
  intro hready
  cases hready with
  | @start lane hready =>
    obtain ⟨m', hstep⟩ := hready s.wall
    have hstep : m.step? s.wall (.start lane) = some m' := hstep
    obtain ⟨w, hw, -⟩ := Machine.start_goes hstep
    have hidle : (m.engine.queue lane).running = none := Machine.idle_of_next hw
    have hnone : m.engine.request? (.job lane) = none := by
      rw [request_eq_asked m _ {}, Machine.asked?, hidle]
    have htask := htasks (.job lane) (by cases lane <;> simp [Engine.tasks])
    simp only [runTask?, hnone] at htask
    exact h.serves.act_of_step (show m.start? s.wall lane = some m' from hstep) htask
  | @resume τ hready =>
    obtain ⟨m₁, hstep⟩ := hready s.wall {}
    obtain ⟨r, next, x, m₂, hrest, -, hlog, -⟩ := Machine.resume_goes hstep Conduct.calm_default
    have hasked : m.engine.request? τ = some r := by
      rw [request_eq_asked m τ {}]
      exact Machine.asked_of_log (hlog ▸ List.mem_cons_self)
    have hmem : τ ∈ m.engine.tasks := by
      cases τ with
      | job lane => cases lane <;> simp [Engine.tasks]
      | client j =>
        have hj : j < m.engine.clients.length := by
          by_contra hge
          simp [Machine.rest?, List.getElem?_eq_none (Nat.not_lt.mp hge)] at hrest
        simp [Engine.tasks, hj]
    have htask := htasks τ hmem
    obtain ⟨s₁, c, hconduct, hserves, -⟩ := h.serves.conduct h.stored m.engine r
    obtain ⟨m', hstep⟩ := hready s₁.wall c
    simp only [runTask?, hasked, hconduct] at htask
    exact hserves.act_of_step (show m.resumeTask? s₁.wall c τ = some m' from hstep) htask
  | callbackEnds hready =>
    obtain ⟨m', hstep⟩ := hready s.wall (.returned true)
    obtain ⟨p, hp, hk⟩ := Machine.open_of_callbackEnds hstep
    exact hended _ _ ⟨p, hp, hk⟩

end Settle

end Simulation

end DeviceLock
