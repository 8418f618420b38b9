import DeviceLock.Proofs.Engine.Span

namespace DeviceLock

open Program

namespace Engine

variable {e e' : Engine} {t : Ticket} {x : Except Fault Reply}

theorem answer?_eq_some_iff (h : (e.queue t.lane).closed = false) :
    e.answer? t = some x ↔
      ∃ end', (e.queue t.lane).ended[t.index]? = some end' ∧ end'.answer.flatten = x := by
  have hq {σ ι : Type} {q : Queue σ ι} {i : Nat} (hq : q.closed = false) :
      (q.answer? i).map JobAnswer.flatten = some x ↔
        ∃ end', q.ended[i]? = some end' ∧ end'.answer.flatten = x := by
    unfold JobQueue.answer?
    cases q.ended[i]? with
    | none => simp [hq]
    | some f => simp
  obtain ⟨lane, i⟩ := t
  cases lane with
  | policy => exact hq h
  | requests => exact hq h
  | finalization => exact hq h

theorem answer?_grows (h : e.answer? t = some x) (hlive : ∀ lane, (e.queue lane).closed = false)
    (hlive' : ∀ lane, (e'.queue lane).closed = false)
    (hended : ∀ lane, (e.queue lane).ended <+: (e'.queue lane).ended) :
    e'.answer? t = some x := by
  obtain ⟨f, hf, hx⟩ := (answer?_eq_some_iff (hlive _)).mp h
  exact (answer?_eq_some_iff (hlive' _)).mpr ⟨f, JobQueue.getElem?_of_grows (hended _) hf, hx⟩

end Engine

namespace Machine

variable {P : Action → Prop} {lane : Lane} {b m m' : Machine} {now : Timestamp} {a : Action}
  {c : Conduct} {op : Operation} {l : List Deed} {t : Ticket} {x : Except Fault Reply}

theorem log_await (h : .request (.await t) x ∈ m.log now a) : m.engine.answer? t = some x := by
  obtain ⟨_, c, m₁, -, hr⟩ := log_respond h
  cases responds hr with
  | awaited hx => exact hx

theorem answer?_step (hm : m.Ordered) (h : m.step? now a = some m') (hr : a ≠ .restart)
    (hx : m.engine.answer? t = some x) : m'.engine.answer? t = some x :=
  Engine.answer?_grows hx (fun lane => (hm lane).live) (fun lane => (hm.step h lane).live)
    fun lane => (step_grows h hr lane).2

theorem Works.answers (h : Works lane P b l m) (hb : b.Ordered)
    (hx : .request (.await t) x ∈ l) : m.engine.answer? t = some x := by
  induction h with
  | start hp hs =>
    exact answer?_step hb hs (by simp) (log_await hx)
  | own hw hp hs ih =>
    have hm := hw.reaches.ordered hb
    rcases List.mem_append.mp hx with hx | hx
    · exact answer?_step hm hs (by simp) (ih hx)
    · exact answer?_step hm hs (by simp) (log_await hx)
  | beside hw hp ha hr hs ih => exact answer?_step (hw.reaches.ordered hb) hs hr (ih hx)

inductive Attends (P : Action → Prop) (b : Machine) (op : Operation) : List Deed → Machine → Prop
  | call {now : Timestamp} {m : Machine} (hp : P (.call op)) (h : b.step? now (.call op) = some m) :
      Attends P b op (b.log now (.call op)) m
  | own {now : Timestamp} {l : List Deed} {m m' : Machine} {c : Conduct} (hw : Attends P b op l m)
      (hp : P (.resume (.client b.engine.clients.length) c))
      (h : m.step? now (.resume (.client b.engine.clients.length) c) = some m') :
      Attends P b op (l ++ m.log now (.resume (.client b.engine.clients.length) c)) m'
  | beside {now : Timestamp} {l : List Deed} {m m' : Machine} {a : Action}
      (hw : Attends P b op l m) (hp : P a)
      (ha : ∀ c, a ≠ .resume (.client b.engine.clients.length) c) (hr : a ≠ .restart)
      (h : m.step? now a = some m') : Attends P b op l m'

def caller (b m : Machine) : Option Client := m.engine.clients[b.engine.clients.length]?

theorem Attends.reaches (h : Attends P b op l m) : Reaches P b m := by
  induction h with
  | call hp h => exact .step (.refl b) hp h
  | own _ hp h ih => exact ih.step hp h
  | beside _ hp _ _ h ih => exact ih.step hp h

inductive Clients (m : Machine) (now : Timestamp) : Action → List Client → Prop
  | launched (op : Operation) :
      Clients m now (.call op) (m.engine.clients ++
        [.ofProgress (m.advance now (op.program m.engine.config)).2])
  | resumed {i : Nat} {c : Conduct} {p : Program Reply} {m₁ : Machine} {progress : Progress Reply}
      (hp : m.engine.clients[i]? = some (.running p))
      (hres : m.resume? now c p = some (m₁, progress)) :
      Clients m now (.resume (.client i) c) (m.engine.clients.set i (.ofProgress progress))
  | dropped (i : Nat) : Clients m now (.drop i) (m.engine.clients.set i .dropped)
  | kept (a : Action) : Clients m now a m.engine.clients

theorem step_clients (h : m.step? now a = some m') (hr : a ≠ .restart) :
    Clients m now a m'.engine.clients := by
  cases a with
  | call op =>
    obtain rfl := call_cases h
    simp only [launch, (advance_turn m now _).clients]
    exact .launched op
  | start lane =>
    obtain ⟨j, -, rfl⟩ := start_cases h
    simp only [settle, Engine.put_clients, (advance_turn m now _).clients]
    exact .kept _
  | resume t c =>
    cases t with
    | job lane =>
      obtain ⟨p, m₁, progress, -, hres, rfl⟩ := resume_cases h
      simp only [settle, Engine.put_clients, (resume_turn hres).clients]
      exact .kept _
    | client i =>
      obtain ⟨p, m₁, progress, hp, hres, rfl⟩ := resume_client_cases h
      simp only [(resume_turn hres).clients]
      exact .resumed hp hres
  | drop i =>
    obtain rfl := drop_cases h
    exact .dropped i
  | callbackEnds pass capability result =>
    obtain ⟨p, -, rfl⟩ := callbackEnds_cases h
    exact .kept _
  | activation s =>
    obtain ⟨s, -, rfl⟩ := activation_cases h
    exact .kept _
  | restart => exact absurd rfl hr

theorem clients_of_step {i : Nat} {k : Client} (h : m.step? now a = some m') (hr : a ≠ .restart)
    (ha : ∀ c, a ≠ .resume (.client i) c) (hk : m.engine.clients[i]? = some k) :
    m'.engine.clients[i]? = some k ∨ a = .drop i ∧ m'.engine.clients[i]? = some .dropped := by
  have hlt := (List.getElem?_eq_some_iff.mp hk).1
  have hclients := step_clients h hr
  generalize m'.engine.clients = clients at hclients ⊢
  cases hclients with
  | launched op => exact .inl ((List.getElem?_append_left hlt).trans hk)
  | @resumed n c p m₁ progress hp hres =>
    have hne : n ≠ i := fun he => ha c (by rw [he])
    exact .inl ((List.getElem?_set_ne hne).trans hk)
  | dropped n =>
    by_cases hn : n = i
    · subst hn
      exact .inr ⟨rfl, List.getElem?_set_self hlt⟩
    · exact .inl ((List.getElem?_set_ne hn).trans hk)
  | kept => exact .inl hk

inductive Attendance (P : Action → Prop) (b : Machine) (op : Operation) (l : List Deed)
    (m : Machine) : Prop
  | running {r : Request} {next : r.Answer → Program Reply}
      (hc : b.caller m = some (.running (.wait r next)))
      (h : Walk (op.program b.engine.config) l (.wait r next))
  | answered {r : Except Fault Reply} (hc : b.caller m = some (.answered r))
      (h : Ends (op.program b.engine.config) l r)
  | dropped (hc : b.caller m = some .dropped)
  | panicked (hc : b.caller m = some .panicked)
      (h : ∃ c, P (.resume (.client b.engine.clients.length) c) ∧ ¬ c.Calm)

theorem Attendance.of_after {k : List Deed} {p : Program Reply} {progress : Progress Reply}
    (hw : Walk (op.program b.engine.config) l p) (h : progress.After p k)
    (hc : b.caller m = some (.ofProgress progress)) : Attendance P b op (l ++ k) m := by
  cases h with
  | running hk => exact .running hc (hw.append hk)
  | ended hk => exact .answered hc (hw.append hk)

theorem Attends.stage (h : Attends P b op l m) : Attendance P b op l m := by
  induction h with
  | call hp hs =>
    rename_i now m
    obtain rfl := call_cases hs
    refine .of_after (l := []) (.stay _) (advance_after b now _).2 ?_
    simp only [caller, launch, (advance_turn b now _).clients]
    exact List.getElem?_concat_length
  | @own now l m m' c hw hp hs ih =>
    obtain ⟨p, m₁, progress, hrun, hres, rfl⟩ := resume_client_cases hs
    have hlt := (List.getElem?_eq_some_iff.mp hrun).1
    have hclient : b.caller { m₁ with
        engine.clients := m₁.engine.clients.set b.engine.clients.length (.ofProgress progress) } =
        some (.ofProgress progress) := by
      rw [← (resume_turn hres).clients] at hlt
      exact List.getElem?_set_self hlt
    simp only [log, hrun]
    have hsame {k : Client} (hc : b.caller m = some k) : k = .running p :=
      Option.some.inj (hc.symm.trans hrun)
    cases ih with
    | running hc hwalk =>
      cases hsame hc
      rcases answered_after hres with hafter | ⟨rfl, -, -, hn⟩
      · exact .of_after hwalk hafter hclient
      · exact .panicked hclient ⟨c, hp, hn⟩
    | answered hc => cases hsame hc
    | dropped hc => cases hsame hc
    | panicked hc => cases hsame hc
  | beside hw hp ha hr hs ih =>
    cases ih with
    | running hc hwalk =>
      exact (clients_of_step hs hr ha hc).elim (.running · hwalk) (.dropped ·.2)
    | answered hc hends =>
      exact (clients_of_step hs hr ha hc).elim (.answered · hends) (.dropped ·.2)
    | dropped hc => exact (clients_of_step hs hr ha hc).elim .dropped (.dropped ·.2)
    | panicked hc h => exact (clients_of_step hs hr ha hc).elim (.panicked · h) (.dropped ·.2)

theorem Attends.exists_caller (h : Attends P b op l m) : ∃ k, b.caller m = some k := by
  cases h.stage with
  | running hc => exact ⟨_, hc⟩
  | answered hc => exact ⟨_, hc⟩
  | dropped hc => exact ⟨_, hc⟩
  | panicked hc => exact ⟨_, hc⟩

theorem Attends.ends {r : Except Fault Reply} (h : Attends P b op l m)
    (hr : b.caller m = some (.answered r)) : Ends (op.program b.engine.config) l r := by
  cases h.stage with
  | running hc => cases hr.symm.trans hc
  | answered hc hends =>
    cases hr.symm.trans hc
    exact hends
  | dropped hc => cases hr.symm.trans hc
  | panicked hc => cases hr.symm.trans hc

theorem Attends.keeps {j : Job} (h : Attends P b op l m) (hj : .act (.submit j) t ∈ l) :
    m.engine.Keeps t j := by
  induction h with
  | call hp hs => exact (step_frame hs (by simp)).keeps j t hj
  | own hw hp hs ih =>
    rcases List.mem_append.mp hj with hj | hj
    · exact (ih hj).grows fun lane => (step_grows hs (by simp) lane).1
    · exact (step_frame hs (by simp)).keeps j t hj
  | beside hw hp ha hr hs ih => exact (ih hj).grows fun lane => (step_grows hs hr lane).1

theorem Attends.answers (h : Attends P b op l m) (hb : b.Ordered)
    (hx : .request (.await t) x ∈ l) : m.engine.answer? t = some x := by
  induction h with
  | call hp hs => exact answer?_step hb hs (by simp) (log_await hx)
  | own hw hp hs ih =>
    have hm := hw.reaches.ordered hb
    rcases List.mem_append.mp hx with hx | hx
    · exact answer?_step hm hs (by simp) (ih hx)
    · exact answer?_step hm hs (by simp) (log_await hx)
  | beside hw hp ha hr hs ih => exact answer?_step (hw.reaches.ordered hb) hs hr (ih hx)

end Machine

end DeviceLock
