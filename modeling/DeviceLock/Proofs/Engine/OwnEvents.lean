import DeviceLock.Proofs.Engine.Service
import DeviceLock.Proofs.Program.Reliance

namespace DeviceLock

open Program

namespace Lane

variable {lane : Lane} {d : Deed}

theorem not_owns_of_measuring (h : d.Within .measuring) : ¬ lane.Owns d := by
  cases d with
  | act a x =>
    obtain rfl : a = .pseudo := h
    cases lane <;> exact id
  | request r x =>
    cases r with
    | cursor => cases lane <;> exact id
    | load => cases lane <;> exact id
    | _ => exact h.elim

end Lane

namespace Machine

variable {d : Document} {m₀ b m : Machine} {op : Operation} {event : ProvisionEvent} {l : List Deed}

/-- The deeds have raised the event as they had read the cursor at the state that admits it, and its
job has started at another one. -/
def Overtaken (m₀ : Machine) (event : ProvisionEvent) (l : List Deed) (m : Machine) : Prop :=
  ∃ (i : List Deed) (t : Ticket) (k : List Deed) (b : Machine) (n : List Deed) (m₁ : Machine),
    l = i ++ .act (.submit (.policy (.transition event))) t :: k ∧
      .request .cursor (.ok (.source event)) ∈ i ∧
        Ran m₀ .policy t.index (.transition event) b n m₁ m ∧ b.core.position ≠ .source event

inductive Due (b : Machine) (l : List Deed) : DeviceRequest.Refusal → Prop
  | enrolling {p : ProvisionState} (hread : .request .cursor (.ok p) ∈ l)
      (hp : p.isEnrolling = true) : Due b l (.notYetProvisioned p)
  | pseudo (hread : .request .cursor (.ok .unprovisioned) ∈ l) (h : b.core.pseudo = .cleared) :
      Due b l .deviceCleared
  | stored {p : ProvisionState} (hread : .request .cursor (.ok p) ∈ l) (hp : p ≠ .unprovisioned)
      (h : b.core.document.device = .cleared) : Due b l .deviceCleared

inductive Handled (m₀ : Machine) (request : DeviceRequest) (b : Machine) (l : List Deed)
    (m : Machine) : Except Fault Reply → Prop
  | refused {reason : DeviceRequest.Refusal} (hreason : Due b l reason)
      (hl : ∀ d ∈ l, d.Within .measuring) (hpseudo : m.core.pseudo = b.core.pseudo)
      (hdevice : m.core.document.device = b.core.document.device) :
      Handled m₀ request b l m (.error (.refused reason))
  | pseudo (hread : .request .cursor (.ok .unprovisioned) ∈ l)
      (hwrites : ∀ c x, .request (.write c) x ∉ l)
      (hpseudo : m.core.pseudo = request.target)
      (hdevice : m.core.document.device = b.core.document.device) :
      Handled m₀ request b l m (.ok (.device request.target))
  | persisted {p : ProvisionState} {x : Except Fault Reply}
      (hread : .request .cursor (.ok p) ∈ l) (hp : p.hasKiosk = true)
      (hwrite : .request (.write (.device request.target)) (.ok ()) ∈ l)
      (hdevice : m.core.document.device = request.target)
      (hx : x = .ok (.device request.target) ∨ Overtaken m₀ .success l m) :
      Handled m₀ request b l m x

theorem ok_or_overtaken {x : Except Fault Reply} (hf : Fresh d m₀)
    (hm : Reaches Action.Willing m₀ m) (h : Relies event l x)
    (hk : ∀ j t, .act (.submit j) t ∈ l → m.engine.Keeps t j)
    (hx : ∀ t x, .request (.await t) x ∈ l → m.engine.answer? t = some x) :
    (∃ a, x = .ok a) ∨ Overtaken m₀ event l m := by
  have hjob {i : List Deed} {t : Ticket} {j : PolicyJob}
      (hl : l = i ++ [.act (.submit (.policy j)) t, .request (.await t) x]) :
      ∃ b n m₁, Ran m₀ .policy t.index j b n m₁ m ∧ j.Fate b.core.position x := by
    obtain ⟨w, b, n, m₁, e, hw, hran, he, rfl⟩ :=
      hm.answered hf (hk (.policy j) t (by simp [hl])) (hx t x (by simp [hl]))
    obtain ⟨lane, i⟩ := t
    cases lane with
    | policy =>
      obtain rfl : w = j := by cases hw; rfl
      exact ⟨b, n, m₁, hran, hran.fate hf he⟩
    | requests => cases hw
    | finalization => cases hw
  cases h with
  | @plain i t j _ hj =>
    obtain ⟨b, n, m₁, -, hfate⟩ := hjob rfl
    cases j with
    | transition e => exact absurd rfl (hj e)
    | _ => exact .inl hfate
  | @raised i t _ hread =>
    obtain ⟨b, n, m₁, hran, hfate⟩ := hjob rfl
    by_cases hb : b.core.position = .source event
    · have hadmits := (ProvisionState.next_isSome_iff _ _).mpr hb
      rcases hfate with ⟨s, -, rfl⟩ | ⟨hnone, -⟩
      · exact .inl ⟨_, rfl⟩
      · rw [hnone] at hadmits
        cases hadmits
    · exact .inr ⟨i, t, _, b, n, m₁, rfl, hread, hran, hb⟩

theorem Attends.unit_or_overtaken {r : Except Fault Reply} (hw : Attends Action.Willing b op l m)
    (hf : Fresh d m₀) (hb : Reaches Action.Willing m₀ b) (hop : op.isLifecycle = true)
    (h : Ends (op.program b.engine.config) l r) :
    r = .ok .unit ∨ Overtaken m₀ .ready l m := by
  obtain ⟨x, hx, rfl⟩ := Operation.ends_lifecycle hop h (hw.served (hb.applied hf.applied))
  have hor := ok_or_overtaken hf (hb.trans hw.reaches) hx (fun j t => hw.keeps)
    fun t y => hw.answers (hb.ordered hf.ordered)
  refine hor.imp_left ?_
  rintro ⟨a, rfl⟩
  rfl

theorem due_of_story {c : Core} {reason : DeviceRequest.Refusal} (h : reason.Read l)
    (hs : Lane.requests.Story b.core l c) (hl : ∀ d ∈ l, d.Within .measuring) : Due b l reason := by
  have howns : ∀ d ∈ l, ¬ Lane.requests.Owns d := fun d hd => Lane.not_owns_of_measuring (hl d hd)
  cases h with
  | enrolling hread hp => exact .enrolling hread hp
  | pseudo hread hx =>
    obtain ⟨c₁, hkept, hfits⟩ := hs.fits howns hx
    have hx : c₁.pseudo = .cleared := hfits.symm
    exact .pseudo hread (hkept.1.symm.trans hx)
  | @stored p doc hread hp hx hd =>
    obtain ⟨c₁, hkept, hfits⟩ := hs.fits howns hx
    obtain rfl : doc = c₁.document := hfits
    exact .stored hread hp (hkept.2.symm.trans hd)

theorem Ran.handled {i : Nat} {request : DeviceRequest} {k : List Deed} {m₁ : Machine}
    {e : Ending Unit (Except Fault Reply) Fault} (h : Ran m₀ .requests i request b k m₁ m)
    (hf : Fresh d m₀) (hclear : request ≠ .clear) (he : m.engine.requests.ended[i]? = some e) :
    Handled m₀ request b k m₁ e.answer.flatten := by
  have hspan := h.span (hf.follows _)
  have hserved := h.works.served (h.before.applied hf.applied)
  obtain ⟨r, hr, hx⟩ := h.ends (hf.follows _) he
  obtain ⟨s, hk, hs⟩ := DeviceRequest.ends_program hr
  have hcourse := ends_carryOut hclear hk hserved
  rw [hx, hs]
  have hstory := hspan.story
  cases hcourse with
  | refused hl hreason =>
    obtain ⟨hpseudo, hdevice⟩ := hstory.spares fun d hd => Lane.not_owns_of_measuring (hl d hd)
    exact .refused (due_of_story hreason hstory hl) hl hpseudo hdevice
  | @pseudo j hj hread =>
    obtain ⟨c, hkept, hset⟩ := hstory.split
    obtain ⟨-, hdevice⟩ := Lane.Story.spares hkept fun d hd => Lane.not_owns_of_measuring (hj d hd)
    obtain ⟨c₁, hs₁, -, hrest⟩ := Lane.Story.head hset
    obtain ⟨hpseudo, hdevice'⟩ := Lane.Story.spares hrest (by simp)
    refine .pseudo (List.mem_append_left _ hread) (fun c x hmem => ?_) hpseudo
      (hdevice'.trans (hs₁.2.trans hdevice))
    rcases List.mem_append.mp hmem with hmem | hmem
    · exact hj _ hmem
    · simp at hmem
  | @persisted p j n x hread hp hn hrelies =>
    obtain ⟨c, -, hwrite⟩ := hstory.split
    obtain ⟨c₁, -, -, hrest⟩ := Lane.Story.head hwrite
    obtain ⟨-, hdevice⟩ := Lane.Story.spares hrest fun d hd => Lane.not_owns_of_caller (hn d hd)
    have hor := ok_or_overtaken hf (h.before.trans h.works.reaches) hrelies hspan.keeps
      fun t y => h.works.answers (h.before.ordered hf.ordered)
    refine .persisted (List.mem_append_left _ hread) hp (by simp) hdevice (hor.imp_left ?_)
    rintro ⟨a, rfl⟩
    rfl

theorem Attends.requested {request : DeviceRequest} {r : Except Fault Reply}
    (hw : Attends Action.Willing b (.request request) l m) (hf : Fresh d m₀)
    (hb : Reaches Action.Willing m₀ b) (hclear : request ≠ .clear)
    (h : Ends ((Operation.request request).program b.engine.config) l r) :
    ∃ t c k m₁, .act (.submit (.request request)) t ∈ l ∧
      Ran m₀ .requests t.index request c k m₁ m ∧ Handled m₀ request c k m₁ r := by
  obtain ⟨t, rfl⟩ := ends_await.mp h
  have hkeeps : m.engine.Keeps t (.request request) := hw.keeps List.mem_cons_self
  have hanswer : m.engine.answer? t = some r := hw.answers (hb.ordered hf.ordered) (by simp)
  obtain ⟨w, c, k, m₁, e, hjob, hran, he, rfl⟩ := (hb.trans hw.reaches).answered hf hkeeps hanswer
  obtain ⟨lane, i⟩ := t
  cases lane with
  | policy => cases hjob
  | requests =>
    obtain rfl : w = request := by cases hjob; rfl
    exact ⟨_, c, k, m₁, List.mem_cons_self, hran, hran.handled hf hclear he⟩
  | finalization => cases hjob

/-- While no collaborator fails or panics, every call that is not given up is answered, whatever
else is called. A lifecycle callback succeeds. A lock or an unlock is answered by its target, which
is stored, or before provisioning held in memory, or it is refused and has changed nothing. An event
that the engine raises by itself is in the way of this only if the cursor has left the state that it
was read at. -/
theorem own_events (hf : Fresh d m₀) (hb : Reaches Action.Willing m₀ b)
    (hw : Attends Action.Willing b op l m) :
    (b.caller m = some .dropped ∨ Inevitable (fun m' => ∃ l' r,
      Attends Action.Willing b op (l ++ l') m' ∧ b.caller m' = some (.answered r)) m) ∧
    ∀ r, b.caller m = some (.answered r) →
      (op.isLifecycle = true → r = .ok .unit ∨ Overtaken m₀ .ready l m) ∧
      ∀ request, op = .request request → request ≠ .clear →
        ∃ t c k m₁, .act (.submit (.request request)) t ∈ l ∧
          Ran m₀ .requests t.index request c k m₁ m ∧ Handled m₀ request c k m₁ r := by
  have hreachable : b.Reachable := ⟨d, m₀, hf, hb.mono fun _ _ => trivial⟩
  refine ⟨?_, fun r hr => ⟨fun hop => hw.unit_or_overtaken hf hb hop (hw.ends hr), ?_⟩⟩
  · obtain ⟨k, hk⟩ := hw.exists_caller
    by_cases hd : k = .dropped
    · exact .inl (hd ▸ hk)
    · exact .inr (hw.is_answered hreachable hk hd (fun _ => Action.Serves.willing)
        fun _ => Conduct.Willing.calm)
  · rintro request rfl hclear
    exact hw.requested hf hb hclear (hw.ends hr)

theorem own_events_setupCompleted :
    ∃ l m r, Attends Action.Willing (plain []) .setupCompleted l m ∧
      (plain []).caller m = some (.answered r) ∧
        (r = .ok .unit ∨ Overtaken (plain []) .ready l m) := by
  have hf : Fresh {} (plain []) := plain_fresh []
  have hcall : Attends Action.Willing (plain []) .setupCompleted
      ((plain []).log epoch (.call .setupCompleted))
      ((plain []).launch epoch (Operation.setupCompleted.program {})) := .call trivial rfl
  rcases (own_events hf (.refl _) hcall).1 with h | h
  · cases h
  obtain ⟨m, -, l, r, hw, hr⟩ := h.exists_reaches
  exact ⟨_, m, r, hw, hr, ((own_events hf (.refl _) hw).2 r hr).1 rfl⟩

def readied (capabilities : List String) : Machine :=
  ⟨{ document := { provisioningReady := true } }, { config := {}, capabilities }⟩

def earlyLock : List Action :=
  [.call (.request .lock), .start .requests, .resume (.job .requests) {}, .resume (.client 0) {}]

def lateSetup : List Action :=
  [Action.call (.event .ready), .call .setupCompleted] ++
    List.replicate 3 (Action.resume (.client 1) {}) ++ [Action.start .policy] ++
      Action.goesOn .policy 8 ++ [Action.start .policy] ++ Action.goesOn .policy 1 ++
        [Action.resume (.client 1) {}]

theorem unstored_and_overtaken :
    (∃ m, (plain []).run? epoch earlyLock = some m ∧
      m.engine.clients = [.answered (.ok (.device .locked))] ∧
        m.world.document.device = .undefined) ∧
    (∃ m, (readied []).run? epoch lateSetup = some m ∧
      m.engine.clients[1]? = some (.answered (.error (.illegalTransition .inProgress .ready)))) ∧
    ∀ a ∈ earlyLock ++ lateSetup, a.Willing :=
  ⟨⟨_, rfl, rfl, rfl⟩, ⟨_, rfl, rfl⟩, by decide⟩

end Machine

end DeviceLock
