import DeviceLock.CommandLine.Run
import DeviceLock.Proofs.Engine.Consequence
import DeviceLock.Proofs.Simulation.Call

namespace DeviceLock

namespace CommandLine

open Program

variable {path : String} {config : EngineConfig} {S : DeviceLock.Setting} {d : Document}
  {s : Simulation} {m : Machine} {o : Options} {files : FileSystem} {wall : Timestamp}
  {firstWork : Nat}

structure Holds (path : String) (config : EngineConfig) (S : DeviceLock.Setting) (d : Document)
    (s : Simulation) (m : Machine) : Prop where
  rests : s.Rests path m
  keeps : m.bench.Keeps d
  config : m.engine.config = config
  setting : s.setting = S

def Command.consequence (config : EngineConfig) (S : DeviceLock.Setting) (pseudo : DeviceState)
    (d : Document) (c : Command) : Consequence :=
  c.operation?.elim ⟨d, .ok ()⟩ (Operation.consequence config S pseudo d)

inductive Tells (c : Command) (k : Consequence) : Outcome → Prop
  | done {x : Status} (hr : k.result = .ok ()) (hp : x.provision = k.document.provision)
      (hd : x.persisted = k.document) : Tells c k (.done x)
  | failed {f : Fault} (hr : k.result = .error f) :
      Tells c k (.failed (complaint c.context? (.ofFault f)))

theorem performs {K : Except Fault Reply → Bench → Prop} (h : s.Rests path m) (op : Operation)
    (hK : (op.program m.engine.config).Leads (Deed.Expected s.setting) m.bench K) :
    ∃ s' m' x, perform s op = (s', x.mapError some) ∧ s'.Rests path m' ∧
      s'.setting = s.setting ∧ m'.engine.config = m.engine.config ∧ K x m'.bench := by
  obtain ⟨s', m', x, hcall, hrests, hsetting, hconfig, hx⟩ := h.call op hK
  refine ⟨s', m', x, ?_, hrests, hsetting, hconfig, hx⟩
  simp only [perform, hcall]
  rw [if_neg]
  · cases x <;> rfl
  · rw [List.any_eq_true]
    rintro ⟨e, he, hend⟩
    split at hend
    · exact hrests.serves.unended _ he
    · cases hend

namespace Holds

theorem performs (h : Holds path config S d s m) (op : Operation) :
    ∃ s' m' x, perform s op = (s', Except.mapError some x) ∧
      Holds path config S (op.consequence config S m.engine.pseudo d).document s' m' ∧
        Except.map (fun _ => ()) x = (op.consequence config S m.engine.pseudo d).result := by
  obtain ⟨hrests, hkeeps, rfl, rfl⟩ := h
  obtain ⟨s', m', x, hperform, hrests', hsetting, hconfig, hkeeps', hx⟩ :=
    CommandLine.performs hrests op (op.leads_consequence hkeeps)
  exact ⟨s', m', x, hperform, ⟨hrests', hkeeps', hconfig, hsetting⟩, hx⟩

theorem awaitActivation (h : Holds path config S d s m) :
    Holds path config S d (awaitActivation s) m := by
  have hlater : ∃ now, CommandLine.awaitActivation s = { s with now } := by
    unfold CommandLine.awaitActivation
    split
    · split
      · exact ⟨s.now, rfl⟩
      · exact h.rests.waitFor _ _
    · exact ⟨s.now, rfl⟩
  obtain ⟨now, hnow⟩ := hlater
  rw [hnow]
  exact ⟨h.rests.later now s.wall, h.keeps, h.config, h.setting⟩

theorem report (h : Holds path config S d s m) :
    ∃ s' m' x, report s = (s', .done x) ∧ Holds path config S d s' m' ∧
      x.provision = d.provision ∧ x.persisted = d := by
  obtain ⟨hrests, hkeeps, rfl, rfl⟩ := h
  obtain ⟨s', m', x, hperform, hrests', hsetting, hconfig, hkeeps', y, rfl, hp, hd⟩ :=
    CommandLine.performs hrests .status (status_leads hkeeps)
  refine ⟨s', m', y, ?_, ⟨hrests', hkeeps', hconfig, hsetting⟩, hp, hd⟩
  simp only [CommandLine.report, hperform, Except.mapError]

theorem obey (h : Holds path config S d s m) (c : Command) :
    ∃ s' m' out, obey s c = (s', out) ∧
      Holds path config S (c.consequence config S m.engine.pseudo d).document s' m' ∧
        Tells c (c.consequence config S m.engine.pseudo d) out := by
  have hdone {k : Consequence} {s : Simulation} {m : Machine}
      (h : Holds path config S k.document s m) (hk : k.result = .ok ()) :
      ∃ s' m' out, CommandLine.report (CommandLine.awaitActivation s) = (s', out) ∧
        Holds path config S k.document s' m' ∧ Tells c k out := by
    obtain ⟨s', m', x, hreport, h', hp, hd⟩ := h.awaitActivation.report
    exact ⟨s', m', .done x, hreport, h', .done hk hp hd⟩
  simp only [CommandLine.obey, Command.consequence]
  cases hop : c.operation? with
  | none => exact hdone (k := ⟨d, .ok ()⟩) h rfl
  | some op =>
    obtain ⟨s₁, m₁, x, hperform, h₁, hx⟩ := h.performs op
    cases x with
    | ok r =>
      simp only [hperform, Except.mapError]
      exact hdone h₁ hx.symm
    | error f =>
      simp only [hperform, Except.mapError]
      exact ⟨s₁, m₁, _, rfl, h₁, .failed hx.symm⟩

end Holds

section Session

def Options.setting (o : Options) (wall : Timestamp) : DeviceLock.Setting where
  wall
  answer
    | .setupComplete => !o.setupIncomplete
    | .userUnlocked => !o.userLocked

theorem session_of_invalid {f : ConfigFault} (h : config.validate = .error f) :
    session o config files wall firstWork = .error (complaint none (.ofConfig f)) := by
  simp only [session, Simulation.bootstrap, Engine.ofConfig, h]
  rfl

theorem sound_of_new (w : World) (config : EngineConfig) (capabilities : List String) :
    Machine.Sound ⟨w, { config, capabilities }⟩ where
  ordered := fun lane => by cases lane <;> exact .initial _
  informed := .of_idle (fun lane => by cases lane <;> rfl) rfl
  usual := by
    refine ⟨fun lane p hp => ?_, nofun⟩
    cases lane <;> cases hp
  applied := nofun

def opened (o : Options) (config : EngineConfig) (files : FileSystem) (wall : Timestamp)
    (firstWork : Nat) (d : Document) : Simulation where
  wall
  config
  world := { document := d, nextWork := firstWork }
  engines := [{ config, capabilities := scripted.map ScriptedCapability.name }]
  scripted
  switches := { setupComplete := !o.setupIncomplete, userUnlocked := !o.userLocked }
  disk := some ⟨files, { path := storePath o config }⟩

theorem session_of_works (hvalid : config.validate = .ok config)
    (hworks : FileStore.Works { path := storePath o config } files d) :
    session o config files wall firstWork = .ok (opened o config files wall firstWork d) := by
  have hload := hworks.load
  simp only [session, Simulation.bootstrap, Engine.ofConfig, hvalid]
  rcases hx : FileStore.load { path := storePath o config } files {} with ⟨store, e | x⟩
  · rw [hx] at hload
    cases hload
  · rw [hx] at hload
    cases hload
    rfl

theorem holds_opened (hworks : FileStore.Works { path := storePath o config } files d)
    (wall : Timestamp) (firstWork : Nat) :
    Holds (storePath o config) config (o.setting wall) d (opened o config files wall firstWork d)
      ⟨{ document := d, nextWork := firstWork },
        { config, capabilities := scripted.map ScriptedCapability.name }⟩ where
  rests :=
    { serves :=
        { engines := rfl
          world := rfl
          hushed := rfl
          config := rfl
          capabilities := rfl
          succeeds := by
            intro c hc step
            obtain ⟨name, -, rfl⟩ := List.mem_map.mp hc
            rfl
          agenda := rfl
          script := rfl
          failures := rfl
          unended := by simp [opened] }
      stored := ⟨_, rfl, rfl, hworks⟩
      sound := sound_of_new _ _ _
      quiescent := ⟨fun lane => by cases lane <;> rfl, fun lane => by cases lane <;> rfl, nofun⟩
      ended := by
        rintro q j ⟨p, hp, -⟩
        cases hp
      started := nofun }
  keeps := ⟨rfl, nofun, nofun⟩
  config := rfl
  setting := congrArg (DeviceLock.Setting.mk wall) (funext fun q => by cases q <;> rfl)

end Session

end CommandLine

end DeviceLock
