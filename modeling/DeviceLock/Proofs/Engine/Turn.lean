import DeviceLock.Proofs.Engine.Lane
import DeviceLock.Proofs.Program.Waiting

namespace DeviceLock

namespace Conduct

/-- Nothing panics. -/
structure Calm (c : Conduct) : Prop where
  store : c.store ≠ .panicked
  call : c.call ≠ .panicked
  answer : c.answer ≠ none

instance (c : Conduct) : Decidable c.Calm :=
  decidable_of_iff (c.store ≠ .panicked ∧ c.call ≠ .panicked ∧ c.answer ≠ none)
    ⟨fun ⟨hs, hc, ha⟩ => ⟨hs, hc, ha⟩, fun ⟨hs, hc, ha⟩ => ⟨hs, hc, ha⟩⟩

structure Willing (c : Conduct) : Prop where
  store : c.store = .ok
  call : c.call = .ok
  answer : c.answer ≠ none

instance (c : Conduct) : Decidable c.Willing :=
  decidable_of_iff (c.store = .ok ∧ c.call = .ok ∧ c.answer ≠ none)
    ⟨fun ⟨hs, hc, ha⟩ => ⟨hs, hc, ha⟩, fun ⟨hs, hc, ha⟩ => ⟨hs, hc, ha⟩⟩

theorem Willing.calm {c : Conduct} (h : c.Willing) : c.Calm where
  store := by simp [h.store]
  call := by simp [h.call]
  answer := h.answer

theorem willing_default : ({} : Conduct).Willing := ⟨rfl, rfl, by decide⟩

theorem calm_default : ({} : Conduct).Calm := willing_default.calm

end Conduct

structure Core where
  cursor : Option ProvisionState
  pseudo : DeviceState
  document : Document

namespace Core

/-- The provision state in effect, loaded or not. -/
def position (c : Core) : ProvisionState := c.cursor.getD c.document.provision

end Core

namespace Deed

def effect : Deed → Core → Core
  | act (.moveCursor s) _, c => { c with cursor := some s }
  | act (.setPseudo s) _, c => { c with pseudo := s }
  | request .cursor (.ok s), c => { c with cursor := some s }
  | request (.write k) (.ok _), c => { c with document := k.apply c.document }
  | _, c => c

def Fits (c : Core) : Deed → Prop
  | act .pseudo x => x = c.pseudo
  | request .cursor (.ok s) => s = c.position
  | request .cursor (.error _) => c.cursor = none
  | request .load (.ok d) => d = c.document
  | _ => True

def Granted : Deed → Prop
  | request .cursor (.error _) | request .load (.error _) | request (.write _) (.error _)
  | request (.call _) (.error _) => False
  | _ => True

def submitted (lane : Lane) : Deed → List lane.Work
  | act (.submit j) _ => Engine.added lane j
  | _ => []

end Deed

inductive Core.Tells : Core → List Deed → Core → Prop
  | nil (c : Core) : Tells c [] c
  | cons {c c' : Core} {d : Deed} {l : List Deed} (hd : d.Fits c) (hl : Tells (d.effect c) l c') :
      Tells c (d :: l) c'

namespace Machine

variable {α : Type}

def core (m : Machine) : Core := ⟨m.engine.cursor, m.engine.pseudo, m.world.document⟩

inductive Does : Machine → Deed → Machine → Prop
  | act (m : Machine) (now : Timestamp) (a : Act) :
      Does m (.act a (m.perform now a).2) (m.perform now a).1
  | request {m m' : Machine} {c : Conduct} {r : Request} {x : r.Answer}
      (h : m.respond c r = (m', .answer x)) : Does m (.request r x) m'

inductive Plays : Machine → List Deed → Machine → Prop
  | nil (m : Machine) : Plays m [] m
  | cons {m m₁ m' : Machine} {d : Deed} {l : List Deed} (h : Does m d m₁) (hl : Plays m₁ l m') :
      Plays m (d :: l) m'

def deeds (m : Machine) (now : Timestamp) : Program α → List Deed
  | .act a next =>
    .act a (m.perform now a).2 :: deeds (m.perform now a).1 now (next (m.perform now a).2)
  | .done _ | .wait _ _ => []

def answered (m : Machine) (now : Timestamp) (c : Conduct) : Program α → List Deed
  | .wait r next =>
    match m.respond c r with
    | (m, .answer x) => .request r x :: m.deeds now (next x)
    | (_, .pending) | (_, .panicked) => []
  | .act _ _ | .done _ => []

def log (m : Machine) (now : Timestamp) : Action → List Deed
  | .call op => m.deeds now (op.program m.engine.config)
  | .start lane =>
    match (m.engine.queue lane).next? with
    | some j => m.deeds now (m.opening lane j)
    | none => []
  | .resume (.job lane) c =>
    match (m.engine.queue lane).running with
    | some p => m.answered now c p
    | none => []
  | .resume (.client i) c =>
    match m.engine.clients[i]? with
    | some (.running p) => m.answered now c p
    | _ => []
  | .drop _ | .callbackEnds _ _ _ | .activation _ | .restart => []

end Machine

inductive Progress.After {α : Type} (p : Program α) (l : List Deed) : Progress α → Prop
  | running {r : Request} {next : r.Answer → Program α} (h : Program.Walk p l (.wait r next)) :
      After p l (.running (.wait r next))
  | ended {r : Except Fault α} (h : Program.Ends p l r) : After p l (.ended r)

namespace Machine

variable {α : Type} {m m' : Machine} {now : Timestamp} {d : Deed} {l : List Deed}

theorem advance_after (m : Machine) (now : Timestamp) (p : Program α) :
    m.Plays (m.deeds now p) (m.advance now p).1 ∧
      (m.advance now p).2.After p (m.deeds now p) := by
  induction p generalizing m with
  | done r => exact ⟨.nil m, .ended (.stay _)⟩
  | wait r next ih => exact ⟨.nil m, .running (.stay _)⟩
  | act a next ih =>
    obtain ⟨hp, ha⟩ := ih (m.perform now a).2 (m.perform now a).1
    refine ⟨.cons (.act m now a) hp, ?_⟩
    simp only [advance, deeds]
    generalize ((m.perform now a).1.advance now (next (m.perform now a).2)).2 = progress at ha ⊢
    cases ha with
    | running h => exact .running (.act _ h)
    | ended h => exact .ended (.act _ h)

theorem deeds_acts (m : Machine) (now : Timestamp) (p : Program α) :
    ∀ d ∈ m.deeds now p, d.isRequest = false := by
  induction p generalizing m with
  | act a next ih => exact List.forall_mem_cons.mpr ⟨rfl, ih _ _⟩
  | done r => simp [deeds]
  | wait r next ih => simp [deeds]

theorem resume_after {m₁ : Machine} {c : Conduct} {p : Program α} {progress : Progress α}
    (h : m.resume? now c p = some (m₁, progress)) :
    ∃ r next, p = .wait r next ∧
      ((progress = .panicked ∧ m.answered now c p = [] ∧ m.respond c r = (m₁, .panicked)) ∨
        ∃ x m₂, m.respond c r = (m₂, .answer x) ∧ m₂.advance now (next x) = (m₁, progress) ∧
          m.answered now c p = .request r x :: m₂.deeds now (next x)) := by
  cases p with
  | done r => simp [resume?] at h
  | act a next => simp [resume?] at h
  | wait r next =>
    refine ⟨r, next, rfl, ?_⟩
    simp only [resume?] at h
    simp only [answered]
    rcases hr : m.respond c r with ⟨m₂, _ | _ | x⟩
    · rw [hr] at h
      cases h
    · rw [hr] at h
      cases h
      exact .inl ⟨rfl, rfl, rfl⟩
    · rw [hr] at h
      exact .inr ⟨x, m₂, rfl, Option.some.inj h, rfl⟩

/-- Every way to respond to a request: what it takes, what it leaves and what the response is. -/
inductive Responds (m : Machine) (c : Conduct) :
    (r : Request) → Machine → Response r.Answer → Prop
  | known {s : ProvisionState} (hs : m.engine.cursor = some s) :
      Responds m c .cursor m (.answer (.ok s))
  | restored (hs : m.engine.cursor = none) (hc : c.store = .ok) :
      Responds m c .cursor { m with engine.cursor := some m.world.document.provision }
        (.answer (.ok m.world.document.provision))
  | unrestored {f : StorageFault} (hs : m.engine.cursor = none) (hc : c.store = .refused f) :
      Responds m c .cursor m (.answer (.error f))
  | restorePanics (hs : m.engine.cursor = none) (hc : c.store = .panicked) :
      Responds m c .cursor m .panicked
  | loaded (hc : c.store = .ok) : Responds m c .load m (.answer (.ok m.world.document))
  | unloaded {f : StorageFault} (hc : c.store = .refused f) :
      Responds m c .load m (.answer (.error f))
  | loadPanics (hc : c.store = .panicked) : Responds m c .load m .panicked
  | written {k : Change} (hc : c.store = .ok) :
      Responds m c (.write k)
        { m.record (.wrote k .ok) with world.document := k.apply m.world.document }
        (.answer (.ok ()))
  | unwritten {k : Change} {f : StorageFault} (hc : c.store = .refused f) :
      Responds m c (.write k) (m.record (.wrote k (.refused f))) (.answer (.error f))
  | writePanics {k : Change} (hc : c.store = .panicked) :
      Responds m c (.write k) (m.record (.wrote k .panicked)) .panicked
  | called {k : Call} (hc : c.call = .ok) :
      Responds m c (.call k) (m.record (.called k .ok)) (.answer (.ok ()))
  | uncalled {k : Call} {message : String} (hc : c.call = .refused message) :
      Responds m c (.call k) (m.record (.called k (.refused message))) (.answer (.error message))
  | callPanics {k : Call} (hc : c.call = .panicked) :
      Responds m c (.call k) (m.record (.called k .panicked)) .panicked
  | told {q : Question} {b : Bool} (hc : c.answer = some b) : Responds m c (.ask q) m (.answer b)
  | askPanics {q : Question} (hc : c.answer = none) : Responds m c (.ask q) m .panicked
  | joined {n : Nat} {ends : List (String × CallbackEnd)} (he : m.engine.ends? n = some ends) :
      Responds m c (.join n) m (.answer ends)
  | unjoined {n : Nat} (he : m.engine.ends? n = none) : Responds m c (.join n) m .pending
  | awaited {t : Ticket} {x : Except Fault Reply} (hx : m.engine.answer? t = some x) :
      Responds m c (.await t) m (.answer x)
  | unanswered {t : Ticket} (hx : m.engine.answer? t = none) : Responds m c (.await t) m .pending

theorem responds {m₁ : Machine} {c : Conduct} {r : Request} {x : Response r.Answer}
    (h : m.respond c r = (m₁, x)) : m.Responds c r m₁ x := by
  cases r with
  | cursor =>
    simp only [respond] at h
    split at h
    · rename_i s hs
      cases h
      exact .known hs
    · rename_i hs
      split at h <;> cases h
      · exact .restored hs ‹_›
      · exact .unrestored hs ‹_›
      · exact .restorePanics hs ‹_›
  | load =>
    rcases c with ⟨_ | f | _, call, answer⟩ <;> cases h
    · exact .loaded rfl
    · exact .unloaded rfl
    · exact .loadPanics rfl
  | write k =>
    rcases c with ⟨_ | f | _, call, answer⟩ <;> cases h
    · exact .written rfl
    · exact .unwritten rfl
    · exact .writePanics rfl
  | call k =>
    rcases c with ⟨store, _ | message | _, answer⟩ <;> cases h
    · exact .called rfl
    · exact .uncalled rfl
    · exact .callPanics rfl
  | ask q =>
    rcases c with ⟨store, call, _ | b⟩ <;> cases h
    · exact .askPanics rfl
    · exact .told rfl
  | join n =>
    simp only [respond] at h
    rcases he : m.engine.ends? n with _ | ends <;> rw [he] at h <;> cases h
    · exact .unjoined he
    · exact .joined he
  | await t =>
    simp only [respond] at h
    rcases hx : m.engine.answer? t with _ | x <;> rw [hx] at h <;> cases h
    · exact .unanswered hx
    · exact .awaited hx

theorem respond_engine {m₁ : Machine} {c : Conduct} {r : Request} {x : Response r.Answer}
    (h : m.respond c r = (m₁, x)) : ∃ k, m₁.engine = { m.engine with cursor := k } := by
  cases responds h <;> exact ⟨_, rfl⟩

theorem respond_core {m₁ : Machine} {c : Conduct} {r : Request} {x : r.Answer}
    (h : m.respond c r = (m₁, .answer x)) :
    (Deed.request r x).Fits m.core ∧ m₁.core = (Deed.request r x).effect m.core := by
  cases responds h with
  | known hs =>
    exact ⟨by simp [Deed.Fits, core, Core.position, hs], by simp [Deed.effect, core, hs]⟩
  | restored hs => exact ⟨by simp [Deed.Fits, core, Core.position, hs], rfl⟩
  | unrestored hs => exact ⟨hs, rfl⟩
  | loaded => exact ⟨rfl, rfl⟩
  | _ => exact ⟨trivial, rfl⟩

theorem respond_of_panicked {m₁ : Machine} {c : Conduct} {r : Request}
    (h : m.respond c r = (m₁, .panicked)) : m₁.core = m.core ∧ m₁.engine = m.engine := by
  cases responds h <;> exact ⟨rfl, rfl⟩

theorem respond_calm {c : Conduct} {r : Request} (h : m.respond c r = (m', .panicked)) :
    ¬ c.Calm := by
  rintro ⟨hstore, hcall, hanswer⟩
  cases responds h <;> contradiction

theorem respond_granted {c : Conduct} {r : Request} {x : r.Answer} (hc : c.Willing)
    (h : m.respond c r = (m', .answer x)) : (Deed.request r x).Granted := by
  cases responds h with
  | unrestored _ hf | unloaded hf | unwritten hf => cases hc.store.symm.trans hf
  | uncalled hf => cases hc.call.symm.trans hf
  | _ => trivial

theorem Does.core (h : Does m d m') : d.Fits m.core ∧ m'.core = d.effect m.core := by
  cases h with
  | act now a =>
    cases a with
    | submit j => cases j <;> exact ⟨trivial, rfl⟩
    | pseudo => exact ⟨rfl, rfl⟩
    | _ => exact ⟨trivial, rfl⟩
  | request h => exact respond_core h

theorem Does.queue (h : Does m d m') (lane : Lane) :
    m'.engine.queue lane = (m.engine.queue lane).add (d.submitted lane) := by
  cases h with
  | act now a =>
    cases a with
    | submit j => exact Engine.queue_submit m.engine j lane
    | _ => exact (by cases lane <;> rfl : _ = m.engine.queue lane).trans (JobQueue.add_nil _).symm
  | request h =>
    obtain ⟨k, hk⟩ := respond_engine h
    rw [hk]
    exact (by cases lane <;> rfl : _ = m.engine.queue lane).trans (JobQueue.add_nil _).symm

theorem Does.config (h : Does m d m') : m'.engine.config = m.engine.config := by
  cases h with
  | act now a =>
    cases a with
    | submit j => cases j <;> rfl
    | _ => rfl
  | request h =>
    obtain ⟨k, hk⟩ := respond_engine h
    rw [hk]

theorem Does.clients (h : Does m d m') : m'.engine.clients = m.engine.clients := by
  cases h with
  | act now a =>
    cases a with
    | submit j => cases j <;> rfl
    | _ => rfl
  | request h =>
    obtain ⟨k, hk⟩ := respond_engine h
    rw [hk]

theorem Does.passes (h : Does m d m') :
    m.engine.passes.length ≤ m'.engine.passes.length ∧
      ∀ n, d.issued? = some n → n < m'.engine.passes.length := by
  cases h with
  | act now a =>
    cases a with
    | submit j => cases j <;> exact ⟨Nat.le_refl _, by simp [Deed.issued?]⟩
    | issue p d s => simp [perform, record, Deed.issued?]
    | _ => exact ⟨Nat.le_refl _, by simp [Deed.issued?]⟩
  | request h =>
    obtain ⟨k, hk⟩ := respond_engine h
    rw [hk]
    exact ⟨Nat.le_refl _, by simp [Deed.issued?]⟩

theorem Does.keeps {j : Job} {x : Ticket} (h : Does m (.act (.submit j) x) m') :
    m'.engine.Keeps x j := by
  cases h with
  | act now a => exact Engine.keeps_submit m.engine j

structure Turn (m : Machine) (l : List Deed) (m' : Machine) : Prop where
  core : m.core.Tells l m'.core
  queue : ∀ lane,
    m'.engine.queue lane = (m.engine.queue lane).add (l.flatMap (Deed.submitted lane))
  config : m'.engine.config = m.engine.config
  clients : m'.engine.clients = m.engine.clients
  passes : m.engine.passes.length ≤ m'.engine.passes.length
  issued : ∀ d ∈ l, ∀ n, d.issued? = some n → n < m'.engine.passes.length
  keeps : ∀ j x, .act (.submit j) x ∈ l → m'.engine.Keeps x j

theorem Turn.of_core_engine (hc : m'.core = m.core) (he : m'.engine = m.engine) :
    m.Turn [] m' where
  core := hc ▸ .nil _
  queue := by simp [he]
  config := by rw [he]
  clients := by rw [he]
  passes := Nat.le_of_eq (by rw [he])
  issued := by simp
  keeps := by simp

theorem Turn.grows (h : m.Turn l m') (lane : Lane) :
    (m.engine.queue lane).submitted <+: (m'.engine.queue lane).submitted := by
  rw [h.queue]
  exact List.prefix_append _ _

theorem Plays.turn (h : Plays m l m') : m.Turn l m' := by
  induction h with
  | nil m => exact .of_core_engine rfl rfl
  | cons hd _ ih =>
    obtain ⟨hfits, he⟩ := hd.core
    obtain ⟨hle, hissued⟩ := hd.passes
    exact {
      core := .cons hfits (he ▸ ih.core)
      queue := fun lane => by rw [ih.queue, hd.queue]; simp
      config := ih.config.trans hd.config
      clients := ih.clients.trans hd.clients
      passes := Nat.le_trans hle ih.passes
      issued := List.forall_mem_cons.mpr
        ⟨fun n hn => Nat.lt_of_lt_of_le (hissued n hn) ih.passes, ih.issued⟩
      keeps := fun j x hmem => by
        rcases List.mem_cons.mp hmem with rfl | hmem
        · exact hd.keeps.grows ih.grows
        · exact ih.keeps j x hmem }

theorem advance_turn (m : Machine) (now : Timestamp) (p : Program α) :
    m.Turn (m.deeds now p) (m.advance now p).1 :=
  (advance_after m now p).1.turn

theorem resume_plays {m₁ : Machine} {c : Conduct} {p : Program α} {progress : Progress α}
    (h : m.resume? now c p = some (m₁, progress)) :
    m.Plays (m.answered now c p) m₁ ∨
      m.answered now c p = [] ∧ m₁.core = m.core ∧ m₁.engine = m.engine ∧ ¬ c.Calm := by
  obtain ⟨r, next, rfl, ⟨-, hl, hr⟩ | ⟨x, m₂, hr, hadv, hl⟩⟩ := resume_after h
  · obtain ⟨hc, he⟩ := respond_of_panicked hr
    exact .inr ⟨hl, hc, he, respond_calm hr⟩
  · have hplays := (advance_after m₂ now (next x)).1
    rw [hadv] at hplays
    rw [hl]
    exact .inl (.cons (.request hr) hplays)

theorem resume_turn {m₁ : Machine} {c : Conduct} {p : Program α} {progress : Progress α}
    (h : m.resume? now c p = some (m₁, progress)) : m.Turn (m.answered now c p) m₁ := by
  rcases resume_plays h with hplays | ⟨hl, hc, he, -⟩
  · exact hplays.turn
  · rw [hl]
    exact .of_core_engine hc he

theorem answered_after {m₁ : Machine} {c : Conduct} {p : Program α} {progress : Progress α}
    (h : m.resume? now c p = some (m₁, progress)) :
    progress.After p (m.answered now c p) ∨
      progress = .panicked ∧ m.answered now c p = [] ∧ (∃ r next, p = .wait r next) ∧
        ¬ c.Calm := by
  obtain ⟨r, next, rfl, ⟨rfl, hl, hr⟩ | ⟨x, m₂, hr, ha, hl⟩⟩ := resume_after h
  · exact .inr ⟨rfl, hl, ⟨r, next, rfl⟩, respond_calm hr⟩
  · have hafter := (advance_after m₂ now (next x)).2
    rw [ha] at hafter
    rw [hl]
    cases hafter with
    | running hw => exact .inl (.running (.wait x hw))
    | ended he => exact .inl (.ended (.wait x he))

theorem deeds_granted (m : Machine) (now : Timestamp) (p : Program α) :
    ∀ d ∈ m.deeds now p, d.Granted := by
  intro d hd
  have := deeds_acts m now p d hd
  cases d with
  | act a x => trivial
  | request r x => cases this

theorem answered_granted {m₁ : Machine} {c : Conduct} {p : Program α} {progress : Progress α}
    (hc : c.Willing) (h : m.resume? now c p = some (m₁, progress)) :
    ∀ d ∈ m.answered now c p, d.Granted := by
  obtain ⟨r, next, rfl, ⟨rfl, hl, hr⟩ | ⟨x, m₂, hr, ha, hl⟩⟩ := resume_after h
  · simp [hl]
  · rw [hl]
    exact List.forall_mem_cons.mpr ⟨respond_granted hc hr, deeds_granted m₂ now _⟩

end Machine

end DeviceLock
