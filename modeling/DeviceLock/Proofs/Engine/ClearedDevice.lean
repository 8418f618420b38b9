import DeviceLock.Proofs.Engine.Completion
import DeviceLock.Proofs.Engine.Discipline
import DeviceLock.Proofs.Engine.Proceeding
import DeviceLock.Proofs.Program.Sealing
import DeviceLock.Proofs.Program.Sighting

namespace DeviceLock

open Program Lane

theorem Core.Tells.device_eq {c c' : Core} {l : List Deed} (h : c.Tells l c') :
    c'.document.device = l.foldl Discipline.sealing.next c.document.device := by
  induction h with
  | nil c => rfl
  | cons hd hl ih =>
    rename_i c c' d l
    have heffect : (d.effect c).document.device = Discipline.sealing.next c.document.device d := by
      cases d with
      | act a x => cases a <;> rfl
      | request r x =>
        cases r with
        | cursor => cases x <;> rfl
        | write k => cases x <;> cases k <;> rfl
        | _ => rfl
    rw [ih, heffect]
    rfl

namespace Machine

variable {P : Action → Prop} {b m m₁ m' : Machine} {now : Timestamp} {a : Action} {l : List Deed}

def Seals (m : Machine) : Prop :=
  m.Abides .requests .sealing (fun _ _ => True) m.world.document.device

theorem Seals.own (h : m.Seals) (hs : m.step? now a = some m') (ha : a.lane? = some .requests) :
    Discipline.sealing.Along Discipline.sealing.Admits m.world.document.device (m.log now a) ∧
      m'.world.document.device =
        (m.log now a).foldl Discipline.sealing.next m.world.document.device ∧ m'.Seals := by
  have hr : a ≠ .restart := by
    rintro rfl
    cases ha
  have hdevice : m'.world.document.device =
      (m.log now a).foldl Discipline.sealing.next m.world.document.device :=
    (step_frame hs hr).core.device_eq
  obtain ⟨hall, hseals⟩ := Abides.own h hs ha
    (fun j _ => DeviceRequest.program_sealing m.engine.config j _) fun r x hx => by
      cases r with
      | load =>
        cases x with
        | error f => trivial
        | ok doc => exact congrArg Document.device (show doc = _ from log_fits hx)
      | _ => trivial
  rw [Seals, hdevice]
  exact ⟨hall, rfl, hseals⟩

theorem Seals.step (h : m.Seals) (hm : m.Follows .usual) (hs : m.step? now a = some m') :
    m'.Seals ∧ (m.world.document.device = .cleared → m'.world.document.device = .cleared) := by
  by_cases hr : a = .restart
  · subst hr
    obtain rfl := restart_cases hs
    have hidle : Idle { m with engine := m.engine.renewed } .requests := rfl
    exact ⟨hidle.abides, id⟩
  by_cases ha : a.lane? = some .requests
  · obtain ⟨hall, hdevice, hseals⟩ := h.own hs ha
    refine ⟨hseals, fun hd => ?_⟩
    rw [hd] at hall hdevice
    rw [hdevice]
    exact Discipline.sealed hall
  · have hsame : m'.world.document.device = m.world.document.device :=
      (beside_spares hm hs ha hr).2
    rw [Seals, hsame]
    exact ⟨Abides.beside h hs hr ha, id⟩

theorem Reachable.seals (h : m.Reachable) : m.Seals := by
  obtain ⟨d, m₀, hf, hr⟩ := h
  induction hr with
  | refl => exact (hf.idle .requests).abides
  | step hr _ hs ih => exact (ih.step (hr.usual (hf.follows _)) hs).1

/-- From the one machine by any steps, and by new engines with any settings on what is stored. -/
inductive Lives (m : Machine) : Machine → Prop
  | refl : Lives m m
  | step {m₁ m' : Machine} {now : Timestamp} {a : Action} (h : Lives m m₁)
      (hs : m₁.step? now a = some m') : Lives m m'
  | renew {m₁ m' : Machine} (h : Lives m m₁) (hf : Fresh m₁.world.document m') : Lives m m'

theorem Lives.cleared (h : Lives m m') (hm : m.Reachable)
    (hd : m.world.document.device = .cleared) :
    m'.Reachable ∧ m'.world.document.device = .cleared := by
  induction h with
  | refl => exact ⟨hm, hd⟩
  | step h hs ih =>
    obtain ⟨hm₁, hd₁⟩ := ih
    exact ⟨hm₁.trans (Reaches.step (P := fun _ => True) (.refl _) trivial hs),
      (hm₁.seals.step hm₁.usual hs).2 hd₁⟩
  | renew h hf ih => exact ⟨⟨_, _, hf, .refl _⟩, by rw [hf.engine.2]; exact ih.2⟩

theorem Lives.reaches (h : Lives m m₁) (hr : Reaches P m₁ m') : Lives m m' := by
  induction hr with
  | refl => exact h
  | step _ _ hs ih => exact ih.step hs

theorem Proceeds.pass_of_cleared {job : PolicyJob} {k : List Deed} {doc : Document} {c : Bool}
    (h : Proceeds .policy b job k m (.request .load (.ok doc) :: l) m')
    (hd : doc.device = .cleared) (hl : ∀ doc, .request .load (.ok doc) ∉ l)
    (hc : job.isCritical (k.filterMap Deed.moved?).length = c) :
    ∃ p, Sighted c p .cleared l ∧ ∀ v x,
      m'.engine.policy.ended = b.engine.policy.ended ++ [.done v (.ok x)] →
        v = some (.ofPass c p .cleared) ∧ ∀ mode, x = .mode mode → mode = .ofPass c p .cleared := by
  have hidle (p : ProvisionState) : PolicyStep.resolve p doc.device ≠ .idle := by
    rw [hd]
    cases p <;> simp [PolicyStep.resolve]
  obtain ⟨q, hw, hq, hended⟩ := h.span.rest
  obtain ⟨p, hp, hdone⟩ := PolicyJob.sighted hw hc hidle hl hq
  rw [hd] at hp hdone
  exact ⟨p, hp, fun v x hx => hdone v x (hended v _ hx)⟩

/-- A request is refused, or one of its two readings fails; until then it can go on. -/
inductive Rebuffs (m : Machine) (l : List Deed) (m' : Machine) : Prop
  | reading {r : Request} {next : r.Answer → Program (Unit × Except Fault Reply)}
      (h : DeviceRequest.Rebuffed l (.wait r next))
      (hr : m'.engine.requests.running = some (.wait r next))
      (he : m'.engine.requests.ended = m.engine.requests.ended)
      (hn : ∀ now c, ∃ n, m'.step? now (.resume (.job .requests) c) = some n)
  | failed {f : Fault} (h : DeviceRequest.Rebuffed l (.done (.error f)))
      (hr : m'.Idle .requests)
      (he : m'.engine.requests.ended = m.engine.requests.ended ++ [.failed f])
  | panicked {r : Request} {next : r.Answer → Program (Unit × Except Fault Reply)}
      (h : DeviceRequest.Rebuffed l (.wait r next)) (hr : m'.Idle .requests)
      (he : m'.engine.requests.ended = m.engine.requests.ended ++ [.panicked])

theorem Proceeds.rebuffs {request : DeviceRequest} (h : Proceeds .requests b request [] m l m')
    (hd : ∀ doc, .request .load (.ok doc) ∈ l → doc.device = .cleared)
    (hp : m.core.position ≠ .unprovisioned) : m.Rebuffs l m' := by
  have hspan : Span .requests (fun _ => True) b request l m' := h.span
  have hsame : m.engine.requests.ended = b.engine.requests.ended :=
    h.works.ended h.reachable.usual h.busy
  have hplaced (p : ProvisionState) (k : List Deed) (hl : l = .request .cursor (.ok p) :: k) :
      p ≠ .unprovisioned := by
    rcases h.first with ⟨r, x, t, rfl, hfits⟩ | ⟨rfl, -⟩
    · obtain ⟨hx, -⟩ := List.cons.inj hl
      cases hx
      rw [show p = m.core.position from hfits]
      exact hp
    · cases hl
  have hrebuffed {q : Program (Unit × Except Fault Reply)}
      (hw : Walk (b.opening .requests request) l q) : DeviceRequest.Rebuffed l q :=
    DeviceRequest.rebuffed hw hplaced hd
  cases hspan.stage with
  | running hr hw he hv =>
    rename_i r next
    have hrebuffed := hrebuffed hw
    refine .reading hrebuffed hr (he.trans hsame.symm) fun now c => ?_
    have hanswer : (m'.respond c r).2 ≠ .pending := by
      cases hrebuffed <;> exact respond_ne_pending m' c (by simp) (by simp)
    obtain ⟨m₁, progress, hres⟩ := resume_of_answerable hanswer now
    exact ⟨_, resume_of_running hr hres⟩
  | ended hr hend he =>
    have he : m'.engine.requests.ended = b.engine.requests.ended ++ [_] := he
    rw [← hsame] at he
    cases hend with
    | done hw => cases hrebuffed hw
    | failed hw => exact .failed (hrebuffed hw) hr he
    | panicked hw => exact .panicked (hrebuffed hw) hr he

/-- Whatever is done to a cleared device, restarts with other settings among it, it stays cleared. A
pass that has read it from then on issues its one step, and unless it is a critical one ends with no
mode in effect. A request that is handled while the cursor is past the beginning is refused, or one
of its readings has failed, and does nothing else. -/
theorem cleared_final (hm : m.Reachable) (hd : m.world.document.device = .cleared)
    (hl : Lives m m₁) :
    m₁.world.document.device = .cleared ∧
      (∀ b job k doc l m', Proceeds .policy b job k m₁ (.request .load (.ok doc) :: l) m' →
        (∀ doc, .request .load (.ok doc) ∉ l) →
          (∃ p i r, l = .act (.issue p .cleared .cleared) i :: r ∧
            ∀ p' d step i, .act (.issue p' d step) i ∉ r) ∧
          (job.isCritical (k.filterMap Deed.moved?).length = false →
            (∀ mode i, .act (.schedule mode) i ∉ l) ∧ ∀ v x,
              m'.engine.policy.ended = b.engine.policy.ended ++ [.done v (.ok x)] →
                v = some .notActive ∧ ∀ mode, x = .mode mode → mode = .notActive)) ∧
      ∀ b request l m', Proceeds .requests b request [] m₁ l m' →
        m₁.core.position ≠ .unprovisioned → m₁.Rebuffs l m' := by
  obtain ⟨hm₁, hd₁⟩ := hl.cleared hm hd
  have hread {lane : Lane} {b m' : Machine} {j : lane.Work} {k l : List Deed}
      (h : Proceeds lane b j k m₁ l m') (doc : Document)
      (hmem : .request .load (.ok doc) ∈ l) : doc.device = .cleared := by
    obtain ⟨n, hn, hfits⟩ := h.fits hmem
    rw [show doc = n.world.document from hfits]
    exact ((Lives.refl.reaches hn).cleared hm₁ hd₁).2
  have hresolve (p : ProvisionState) : PolicyStep.resolve p .cleared = .cleared := by
    cases p <;> rfl
  have hmode (p : ProvisionState) : LockMode.ofPass false p .cleared = .notActive := by
    cases p <;> rfl
  refine ⟨hd₁, fun b job k doc l m' h hl => ⟨?_, fun hc => ⟨fun mode i hmem => ?_, ?_⟩⟩,
    fun b request l m' h hp => h.rebuffs (hread h) hp⟩
  · obtain ⟨p, ⟨⟨i, r, rfl, hr⟩, -⟩, -⟩ :=
      h.pass_of_cleared (hread h doc List.mem_cons_self) hl rfl
    rw [hresolve]
    exact ⟨p, i, r, rfl, hr⟩
  · obtain ⟨p, ⟨-, hscheduled⟩, -⟩ := h.pass_of_cleared (hread h doc List.mem_cons_self) hl hc
    obtain ⟨hactive, rfl⟩ := hscheduled mode i hmem
    rw [hmode] at hactive
    cases hactive
  · obtain ⟨p, -, hended⟩ := h.pass_of_cleared (hread h doc List.mem_cons_self) hl hc
    rw [hmode] at hended
    exact hended

def clearing : List Action :=
  [Action.call (.event .ready), .drop 0, .start .policy] ++ Action.goesOn .policy 6 ++
    [Action.callbackEnds 0 0 (.returned true)] ++ Action.goesOn .policy 2 ++
      [Action.call (.event .kiosk), .drop 1, .start .policy] ++ Action.goesOn .policy 4 ++
        [Action.callbackEnds 1 0 (.returned true)] ++ Action.goesOn .policy 2 ++
          [Action.call (.request .clear), .drop 2, .start .requests] ++ Action.goesOn .requests 3 ++
            [Action.start .policy] ++ Action.goesOn .policy 2 ++
              [Action.callbackEnds 2 0 (.returned true)] ++ Action.goesOn .policy 2 ++
                Action.goesOn .requests 1 ++ [Action.start .finalization] ++
                  Action.goesOn .finalization 4 ++ Action.goesOn .requests 1

theorem exists_cleared :
    ∃ m, Reaches (· ≠ .call .notifyCleared) (plain ["restrictions"]) m ∧
      m.world.document.device = .cleared ∧ m.world.document.provision = .kioskProvisioned ∧
        m.world.document.finalization = .finalized := by
  have hrun : ((plain ["restrictions"]).run? epoch clearing).any (fun m =>
      decide (m.world.document.device = .cleared) &&
        decide (m.world.document.provision = .kioskProvisioned) &&
          decide (m.world.document.finalization = .finalized)) = true := rfl
  obtain ⟨m, hm, hp⟩ := (Option.any_eq_true _ _).mp hrun
  simp only [Bool.and_eq_true, decide_eq_true_eq] at hp
  obtain ⟨⟨hd, hp⟩, hf⟩ := hp
  have hactions : ∀ a ∈ clearing, a ≠ .call .notifyCleared := by
    -- Its equation lemma would take seconds to state, with so many pieces.
    delta clearing
    simp [Action.goesOn]
  exact ⟨m, (Reaches.refl _).run hactions hm, hd, hp, hf⟩

def lenient (d : Document) : Machine :=
  ⟨{ document := d }, { config := { device := { lenientClear := true } }, capabilities := [] }⟩

theorem lenient_fresh (d : Document) : Fresh d (lenient d) :=
  ⟨{ device := { lenientClear := true } }, [], _, rfl, rfl⟩

theorem lenient_unlocks (d : Document) :
    ∃ b m l m', Reaches (fun _ => True) (lenient d) m ∧ m.core.position = d.provision ∧
      Proceeds .requests b .unlock [] m l m' := by
  let b := (lenient d).launch epoch (await (.request .unlock))
  have hcall : (lenient d).step? epoch (.call (.request .unlock)) = some b := rfl
  have hb : Reaches (fun _ => True) (lenient d) b := .step (.refl _) trivial hcall
  have hnext : (b.engine.queue .requests).next? = some .unlock := rfl
  have hstart := start_of_next hnext epoch
  let m := (b.advance epoch (b.opening .requests .unlock)).1.settle .requests
    (b.advance epoch (b.opening .requests .unlock)).2
  let m' := (m.step? epoch (.resume (.job .requests) {})).get rfl
  have hcursor : m.step? epoch (.resume (.job .requests) {}) = some m' := rfl
  exact ⟨b, m, _, m', hb.step trivial hstart, rfl, ⟨d, _, lenient_fresh d, hb⟩, hnext,
    .start trivial hstart, epoch, {}, m', [], hcursor, .refl, rfl⟩

theorem lenient_enforces (d : Document) :
    ∃ b k m l m', Reaches (fun _ => True) (lenient d) m ∧
      Proceeds .policy b .enforce k m (.request .load (.ok d) :: l) m' ∧
        ∀ doc, .request .load (.ok doc) ∉ l := by
  let b := (lenient d).launch epoch (await (.policy .enforce))
  have hcall : (lenient d).step? epoch (.call .enforce) = some b := rfl
  have hb : Reaches (fun _ => True) (lenient d) b := .step (.refl _) trivial hcall
  have hnext : (b.engine.queue .policy).next? = some .enforce := rfl
  have hstart := start_of_next hnext epoch
  let m := (b.advance epoch (b.opening .policy .enforce)).1.settle .policy
    (b.advance epoch (b.opening .policy .enforce)).2
  let m₁ := (m.step? epoch (.resume (.job .policy) {})).get rfl
  have hcursor : m.step? epoch (.resume (.job .policy) {}) = some m₁ := rfl
  let m₂ := (m₁.step? epoch (.resume (.job .policy) {})).get rfl
  have hload : m₁.step? epoch (.resume (.job .policy) {}) = some m₂ := rfl
  have hw : Works .policy (fun _ => True) b _ m₁ := .own (.start trivial hstart) trivial hcursor
  obtain ⟨n, p, hlog⟩ : ∃ (n : Machine) (p : Program (Option LockMode × Except Fault Reply)),
      m₁.log epoch (.resume (.job .policy) {}) = .request .load (.ok d) :: n.deeds epoch p :=
    ⟨_, _, rfl⟩
  refine ⟨b, _, m₁, n.deeds epoch p, m₂, (hb.step trivial hstart).step trivial hcursor,
    ⟨⟨d, _, lenient_fresh d, hb⟩, hnext, hw, epoch, {}, m₂, [], hload, .refl, ?_⟩,
    fun doc hdoc => ?_⟩
  · rw [List.append_nil, hlog]
  · cases deeds_acts n epoch p _ hdoc

theorem cleared_final_lenient :
    ∃ m, m.Reachable ∧ m.world.document.device = .cleared ∧
      (∃ b m₁ l m', Lives m m₁ ∧ Proceeds .requests b .unlock [] m₁ l m' ∧ m₁.Rebuffs l m') ∧
        ∃ b k m₁ doc l m', Lives m m₁ ∧
          Proceeds .policy b .enforce k m₁ (.request .load (.ok doc) :: l) m' ∧
            ∃ p i r, l = .act (.issue p .cleared .cleared) i :: r := by
  obtain ⟨m, hr, hd, hp, -⟩ := exists_cleared
  have hm : m.Reachable := ⟨{}, _, plain_fresh _, hr.mono fun _ _ => trivial⟩
  have hrenewed : Lives m (lenient m.world.document) := .renew .refl (lenient_fresh _)
  obtain ⟨b, m₁, l, m', hm₁, hposition, hunlock⟩ := lenient_unlocks m.world.document
  obtain ⟨b', k, m₂, l', n', hm₂, henforce, hl'⟩ := lenient_enforces m.world.document
  have hne : m₁.core.position ≠ .unprovisioned := by
    rw [hposition, hp]
    simp
  have hrebuffs := (cleared_final hm hd (hrenewed.reaches hm₁)).2.2 _ _ _ _ hunlock hne
  obtain ⟨⟨p, i, r, hissue, -⟩, -⟩ :=
    (cleared_final hm hd (hrenewed.reaches hm₂)).2.1 _ _ _ _ _ _ henforce hl'
  exact ⟨m, hm, hd, ⟨b, m₁, l, m', hrenewed.reaches hm₁, hunlock, hrebuffs⟩, b', k, m₂, _, l', n',
    hrenewed.reaches hm₂, henforce, p, i, r, hissue⟩

end Machine

end DeviceLock
