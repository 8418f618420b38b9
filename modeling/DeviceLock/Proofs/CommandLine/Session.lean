import DeviceLock.Proofs.CommandLine.Obedience

namespace DeviceLock

namespace CommandLine

variable {path : String} {config : EngineConfig} {S : DeviceLock.Setting} {d : Document}
  {s : Simulation} {m : Machine} {o : Options} {files : FileSystem} {p q : DeviceState}

structure Turn where
  command : Command
  wall : Timestamp
  firstWork : Nat

def filesAfter (files : FileSystem) (s : Simulation) : FileSystem := s.disk.elim files Disk.files

def invoke (o : Options) (config : EngineConfig) (files : FileSystem) (t : Turn) :
    FileSystem × Outcome :=
  match session o config files t.wall t.firstWork with
  | .error text => (files, .failed text)
  | .ok s => (filesAfter files (obey s t.command).1, (obey s t.command).2)

theorem run_eq_invoke {args : List String} {t : Turn}
    (hargs : Invocation.ofArguments args = .run o t.command)
    (hconfig : loadConfig o files = .ok config) :
    run args files t.wall t.firstWork = invoke o config files t := by
  simp only [run, hargs, hconfig, invoke]
  change (match session o config files t.wall t.firstWork with
    | .error text => (files, Outcome.failed text)
    | .ok s => _) = _
  cases session o config files t.wall t.firstWork <;> rfl

def apart (o : Options) (config : EngineConfig) :
    FileSystem → List Turn → List (FileSystem × Outcome)
  | _, [] => []
  | files, t :: ts => invoke o config files t :: apart o config (invoke o config files t).1 ts

def obeyAll (files : FileSystem) : Simulation → List Turn → List (FileSystem × Outcome)
  | _, [] => []
  | s, t :: ts =>
    let (s, out) := obey { s with wall := t.wall } t.command
    (filesAfter files s, out) :: obeyAll files s ts

def together (o : Options) (config : EngineConfig) (files : FileSystem) :
    List Turn → List (FileSystem × Outcome)
  | [] => []
  | t :: ts =>
    match session o config files t.wall t.firstWork with
    | .error text => (t :: ts).map fun _ => (files, .failed text)
    | .ok s => obeyAll files s (t :: ts)

namespace Command

def Volatile (d : Document) (c : Command) : Prop := ∃ op, c.operation? = some op ∧ op.Volatile d

theorem consequence_document (c : Command) (config : EngineConfig) (S : DeviceLock.Setting)
    (d : Document) (p q : DeviceState) :
    (c.consequence config S p d).document = (c.consequence config S q d).document := by
  unfold consequence
  cases c.operation? with
  | none => rfl
  | some op => exact op.consequence_document

theorem consequence_congr {c : Command} (h : ¬ c.Volatile d) :
    c.consequence config S p d = c.consequence config S q d := by
  unfold consequence
  cases hop : c.operation? with
  | none => rfl
  | some op => exact Operation.consequence_congr fun hv => h ⟨op, hop, hv⟩

theorem consequence_undefined {c : Command} (h : c.Volatile d) :
    (c.consequence config S .undefined d).result = .ok () := by
  obtain ⟨op, hop, r, rfl, hp⟩ := h
  simp [consequence, hop, Operation.consequence, DeviceRequest.consequence, DeviceRequest.plan, hp]

theorem regular_consequence (c : Command) (config : EngineConfig) (p : DeviceState)
    (h : d.Regular) (hS : S.wall.Regular) : (c.consequence config S p d).document.Regular := by
  unfold consequence
  cases c.operation? with
  | none => exact h
  | some op => exact op.regular_consequence h hS

end Command

def told (x : Status) : ProvisionState × DeviceState × LockMode × Document :=
  (x.provision, x.persisted.device, x.expectedMode, x.persisted)

/-- Both are told of the same success or failure; what is volatile may also be refused the second
time. -/
inductive Agrees (volatile : Prop) : Outcome → Outcome → Prop
  | done {x y : Status} (h : told x = told y) : Agrees volatile (.done x) (.done y)
  | failed (text : String) : Agrees volatile (.failed text) (.failed text)
  | refused (x : Status) (text : String) (h : volatile) : Agrees volatile (.done x) (.failed text)

inductive Matches (path : String) : Document → List Turn → List (FileSystem × Outcome) →
    List (FileSystem × Outcome) → Prop
  | nil (d : Document) : Matches path d [] [] []
  | cons {d d' : Document} {t : Turn} {ts : List Turn} {x y : FileSystem × Outcome}
      {xs ys : List (FileSystem × Outcome)}
      (hx : FileStore.inFile { path } x.1 {} = .ok d')
      (hy : FileStore.inFile { path } y.1 {} = .ok d')
      (hagrees : Agrees (t.command.Volatile d) x.2 y.2) (h : Matches path d' ts xs ys) :
      Matches path d (t :: ts) (x :: xs) (y :: ys)

theorem Tells.agrees {c : Command} {k l : Consequence} {x y : Outcome} {volatile : Prop}
    (hx : Tells c k x) (hy : Tells c l y) (hd : k.document = l.document)
    (hr : k.result = l.result ∨ volatile ∧ k.result = .ok ()) : Agrees volatile x y := by
  cases hx with
  | @done x hk hp hx =>
    cases hy with
    | @done y hl hq hy =>
      refine .done ?_
      simp only [told, Status.expectedMode, hp, hx, hq, hy, hd]
    | failed hl =>
      rcases hr with hr | ⟨hv, -⟩
      · rw [hk, hl] at hr
        cases hr
      · exact .refused _ _ hv
  | failed hk =>
    rcases hr with hr | ⟨-, hr⟩
    · cases hy with
      | done hl =>
        rw [hk, hl] at hr
        cases hr
      | failed hl =>
        obtain rfl := Except.error.inj (hk.symm.trans (hr.trans hl))
        exact .failed _
    · rw [hk] at hr
      cases hr

section Holds

theorem Holds.filed (h : Holds path config S d s m) (hd : d.Regular) (files : FileSystem) :
    FileStore.Works { path } (filesAfter files s) d := by
  obtain ⟨k, hk, rfl, hworks⟩ := h.rests.stored
  have hdocument : m.world.document = d := h.keeps.document
  rw [hdocument] at hworks
  rw [filesAfter, hk]
  exact hworks.opened hd

theorem Holds.at {wall : Timestamp} (h : Holds path config (o.setting wall) d s m)
    (now : Timestamp) : Holds path config (o.setting now) d { s with wall := now } m where
  rests := h.rests.later s.now now
  keeps := h.keeps
  config := h.config
  setting := by
    have hanswer := congrArg DeviceLock.Setting.answer h.setting
    exact congrArg (DeviceLock.Setting.mk now) hanswer

end Holds

theorem matches_invalid {text : String} (ts : List Turn)
    (hs : ∀ files wall firstWork, session o config files wall firstWork = .error text)
    (hread : FileStore.inFile { path } files {} = .ok d) :
    Matches path d ts (apart o config files ts) (ts.map fun _ => (files, .failed text)) := by
  induction ts with
  | nil => exact .nil d
  | cons t ts ih =>
    have hinvoke : invoke o config files t = (files, .failed text) := by
      rw [invoke, hs]
    rw [apart, hinvoke, List.map_cons]
    exact .cons hread hread (.failed text) ih

theorem matches_obeyAll {fs gs : FileSystem} {wall : Timestamp} (ts : List Turn)
    (hvalid : config.validate = .ok config) (hd : d.Regular)
    (hwalls : ∀ t ∈ ts, t.wall.Regular)
    (hworks : FileStore.Works { path := storePath o config } fs d)
    (h : Holds (storePath o config) config (o.setting wall) d s m) :
    Matches (storePath o config) d ts (apart o config fs ts) (obeyAll gs s ts) := by
  induction ts generalizing fs s m d wall with
  | nil => exact .nil d
  | cons t ts ih =>
    obtain ⟨hwall, hwalls⟩ := List.forall_mem_cons.mp hwalls
    have hopened := holds_opened hworks t.wall t.firstWork
    obtain ⟨s₁, m₁, x, hobey₁, h₁, hx⟩ := hopened.obey t.command
    obtain ⟨s₂, m₂, y, hobey₂, h₂, hy⟩ := (h.at t.wall).obey t.command
    have hinvoke : invoke o config fs t = (filesAfter fs s₁, x) := by
      rw [invoke, session_of_works hvalid hworks]
      simp only [hobey₁]
    have hdocument := t.command.consequence_document config (o.setting t.wall) d .undefined
      m.engine.pseudo
    have hregular := t.command.regular_consequence config .undefined hd
      (show (o.setting t.wall).wall.Regular from hwall)
    have h₂ := hdocument ▸ h₂
    have hfiled₁ := h₁.filed hregular fs
    have hfiled₂ := h₂.filed hregular gs
    rw [apart, hinvoke]
    simp only [obeyAll, hobey₂]
    refine .cons (hfiled₁.filed hregular) (hfiled₂.filed hregular) ?_
      (ih hregular hwalls hfiled₁ h₂)
    refine hx.agrees hy hdocument ?_
    by_cases hv : t.command.Volatile d
    · exact .inr ⟨hv, Command.consequence_undefined hv⟩
    · exact .inl (congrArg Consequence.result (Command.consequence_congr hv))

/-- To obey each command with an engine of its own, over a store file whose operations succeed,
leaves the same and tells the same as to obey them all with one engine. -/
theorem apart_matches_together (o : Options) (config : EngineConfig) (files : FileSystem)
    (d : Document) (ts : List Turn)
    (hread : FileStore.inFile { path := storePath o config } files {} = .ok d)
    (hwrites : ∀ c, (FileStore.write { path := storePath o config } files {} c).2.2 = .ok ())
    (hwalls : ∀ t ∈ ts, t.wall.Regular) :
    Matches (storePath o config) d ts (apart o config files ts) (together o config files ts) := by
  cases ts with
  | nil => exact .nil d
  | cons t ts =>
    rw [together]
    cases hvalid : config.validate with
    | error f =>
      rw [session_of_invalid hvalid]
      exact matches_invalid _ (fun _ _ _ => session_of_invalid hvalid) hread
    | ok c =>
      obtain ⟨rfl, -⟩ := EngineConfig.validate_eq_ok.mp hvalid
      have hworks := FileStore.Works.of_inFile hread hwrites
      rw [session_of_works hvalid hworks]
      exact matches_obeyAll (t :: ts) hvalid (FileStore.regular_of_inFile hread) hwalls hworks
        (holds_opened hworks _ _)

def clearedInMemory : List Turn :=
  [.request .clear, .request .lock, .event .ready].map (⟨·, Machine.epoch, 0⟩)

theorem apart_matches_together_cleared :
    FileStore.inFile { path := storePath {} {} } {} {} = .ok {} ∧
      (∀ c, (FileStore.write { path := storePath {} {} } {} {} c).2.2 = .ok ()) ∧
      (∀ t ∈ clearedInMemory, t.wall.Regular) ∧
      Matches (storePath {} {}) {} clearedInMemory (apart {} {} {} clearedInMemory)
        (together {} {} {} clearedInMemory) ∧
      (apart {} {} {} clearedInMemory).map (·.2.exitCode) = [0, 0, 0] ∧
      (together {} {} {} clearedInMemory).map (·.2.exitCode) = [0, 1, 0] := by
  have hread : FileStore.inFile { path := storePath {} {} } {} {} = .ok {} := rfl
  have hwrites (c : Change) :
      (FileStore.write { path := storePath {} {} } {} {} c).2.2 = .ok () := by
    cases c <;> rfl
  have hwalls : ∀ t ∈ clearedInMemory, t.wall.Regular := by decide
  exact ⟨hread, hwrites, hwalls, apart_matches_together {} {} {} {} _ hread hwrites hwalls,
    by decide +kernel, by decide +kernel⟩

end CommandLine

end DeviceLock
