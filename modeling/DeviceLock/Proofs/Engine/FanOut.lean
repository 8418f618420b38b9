import DeviceLock.Proofs.Engine.Attendance
import DeviceLock.Proofs.Engine.Backlog
import DeviceLock.Proofs.Engine.Completion
import DeviceLock.Proofs.Engine.Events
import DeviceLock.Simulation.Session

namespace DeviceLock

inductive FailsAs : CallbackEnd → FailureKind → Prop
  | returnedFalse : FailsAs (.returned false) .returnedFalse
  | rejected (message : String) : FailsAs (.rejected message) (.rejected message)
  | panicked (text : Option String) : FailsAs (.panicked text) (.aborted text)

inductive Failing : List (String × CallbackEnd) → List CapabilityFailure → Prop
  | nil : Failing [] []
  | succeeded {name : String} {ends : List (String × CallbackEnd)} {fs : List CapabilityFailure}
      (h : Failing ends fs) : Failing ((name, .returned true) :: ends) fs
  | failed {name : String} {e : CallbackEnd} {kind : FailureKind}
      {ends : List (String × CallbackEnd)} {fs : List CapabilityFailure} (he : FailsAs e kind)
      (h : Failing ends fs) : Failing ((name, e) :: ends) (⟨name, kind⟩ :: fs)

theorem failing_filterMap (ends : List (String × CallbackEnd)) :
    Failing ends (ends.filterMap CapabilityFailure.ofEnd?) := by
  induction ends with
  | nil => exact .nil
  | cons e ends ih =>
    obtain ⟨name, e⟩ := e
    cases e with
    | returned ok =>
      cases ok with
      | true => exact .succeeded ih
      | false => exact .failed .returnedFalse ih
    | rejected message => exact .failed (.rejected message) ih
    | panicked text => exact .failed (.panicked text) ih

structure Aggregates (p : ProvisionState) (d : DeviceState) (ends : List (String × CallbackEnd))
    (result : Except Fault Reply) : Prop where
  ok_iff : result = .ok (.step (.resolve p d)) ↔ ∀ e ∈ ends, e.2 = .returned true
  error : (∃ e ∈ ends, e.2 ≠ .returned true) → ∃ failures, Failing ends failures ∧
    result = .error (.enforcement ⟨p, d, .resolve p d, failures⟩)

def PolicyStep.reply (p : ProvisionState) (d : DeviceState) (ends : List (String × CallbackEnd)) :
    Except Fault Reply :=
  (((resolve p d).verdict p d ends).mapError Fault.enforcement).map Reply.step

theorem aggregates_reply (p : ProvisionState) (d : DeviceState)
    (ends : List (String × CallbackEnd)) : Aggregates p d ends (PolicyStep.reply p d ends) := by
  by_cases hall : ∀ e ∈ ends, e.2 = .returned true
  · have hok := PolicyStep.verdict_eq_ok_iff (p := p) (d := d) (s := .resolve p d).mpr hall
    constructor
    · rw [PolicyStep.reply, hok]
      exact iff_of_true rfl hall
    · rintro ⟨e, he, hne⟩
      exact absurd (hall e he) hne
  · have hfail := failing_filterMap ends
    have herror : PolicyStep.reply p d ends =
        .error (.enforcement ⟨p, d, .resolve p d, ends.filterMap CapabilityFailure.ofEnd?⟩) := by
      have hne : (PolicyStep.resolve p d).verdict p d ends ≠ .ok (.resolve p d) := fun h =>
        hall (PolicyStep.verdict_eq_ok_iff.mp h)
      unfold PolicyStep.reply PolicyStep.verdict at *
      split
      · next h => simp [h] at hne
      · next h => rfl
    constructor
    · rw [herror]
      exact iff_of_false (by simp) hall
    · intro _
      exact ⟨_, hfail, herror⟩

namespace Program

def passing (p : ProvisionState) (d : DeviceState) : Program Reply := do
  return .step (← pass p d)

theorem passing_of_idle {p : ProvisionState} {d : DeviceState}
    (h : PolicyStep.resolve p d = .idle) : passing p d = done (.ok (.step .idle)) := by
  unfold passing pass
  simp only [h, ↓reduceIte]
  rfl

theorem passing_of_ne {p : ProvisionState} {d : DeviceState}
    (h : PolicyStep.resolve p d ≠ .idle) :
    passing p d = act (.issue p d (.resolve p d)) fun n =>
      wait (.join n) fun ends => done (PolicyStep.reply p d ends) := by
  unfold passing pass
  simp only [h, ↓reduceIte]
  have hdone (r : Except Fault PolicyStep) :
      (done r).bind (fun step => done (.ok (Reply.step step))) = done (r.map Reply.step) := by
    cases r <;> rfl
  refine congrArg (act _) (funext fun n => congrArg (wait _) (funext fun ends => ?_))
  exact hdone _

end Program

def Action.end? (pass capability : Nat) : Action → Option CallbackEnd
  | callbackEnds n k result => if n = pass ∧ k = capability then some result else none
  | _ => none

def callbackEnds (pass capability : Nat) (actions : List Action) : List CallbackEnd :=
  actions.filterMap (Action.end? pass capability)

def Event.pass? : Event → Option Nat
  | issued n _ _ _ => some n
  | _ => none

theorem Deed.issued_of_event {d : Deed} {e : Event} {n : Nat} (h : d.event? = some e)
    (hn : e.pass? = some n) : d.issued? = some n := by
  cases d with
  | act a x =>
    cases a with
    | issue p dev step =>
      cases h
      exact hn
    | count k =>
      cases h
      cases hn
    | _ => cases h
  | request r x =>
    cases r with
    | write c =>
      cases h
      cases hn
    | call k =>
      cases h
      cases hn
    | _ => cases h

namespace Machine

variable {α : Type} {m m₁ m' : Machine} {now : Timestamp} {a : Action} {l : List Deed}

structure Extends (m : Machine) (l : List Deed) (m' : Machine) : Prop where
  capabilities : m'.engine.capabilities = m.engine.capabilities
  passes : m.engine.passes <+: m'.engine.passes
  issued : ∀ d ∈ l, ∀ n, d.issued? = some n → m.engine.passes.length ≤ n

theorem Does.extends {d : Deed} (h : Does m d m') : Extends m [d] m' := by
  constructor
  · exact h.capabilities
  · cases h with
    | act now a =>
      cases a with
      | issue p dev step => exact List.prefix_append _ _
      | submit j => cases j <;> exact List.prefix_rfl
      | _ => exact List.prefix_rfl
    | request h =>
      obtain ⟨k, hk⟩ := respond_engine h
      rw [hk]
  · intro e he n hn
    obtain rfl := List.mem_singleton.mp he
    cases h with
    | act now a =>
      cases a with
      | issue p dev step => exact Nat.le_of_eq (Option.some.inj hn)
      | _ => cases hn
    | request h => cases hn

theorem Plays.extends (h : Plays m l m') : Extends m l m' := by
  induction h with
  | nil m => exact ⟨rfl, List.prefix_rfl, by simp⟩
  | cons hd _ ih =>
    have hfirst := hd.extends
    constructor
    · rw [ih.capabilities, hfirst.capabilities]
    · exact hfirst.passes.trans ih.passes
    · rw [List.forall_mem_cons]
      constructor
      · exact hfirst.issued _ List.mem_cons_self
      · intro d hd n hn
        exact hfirst.passes.length_le.trans (ih.issued d hd n hn)

def Announces (m m' : Machine) : Prop :=
  ∃ es, m'.world.trace = es ++ m.world.trace ∧
    ∀ e ∈ es, ∀ n, e.pass? = some n → m.engine.passes.length ≤ n

theorem Announces.of_world (h : m'.world = m.world) : Announces m m' :=
  ⟨[], by rw [h]; rfl, by simp⟩

theorem Plays.announces (h : Plays m l m') : Announces m m' := by
  refine ⟨_, h.trace, ?_⟩
  intro e he n hn
  obtain ⟨d, hd, hevent⟩ := List.mem_filterMap.mp (List.mem_reverse.mp he)
  exact h.extends.issued d hd n (Deed.issued_of_event hevent hn)

theorem resume_announces {c : Conduct} {p : Program α} {progress : Progress α}
    (h : m.resume? now c p = some (m₁, progress)) : Announces m m₁ := by
  obtain ⟨r, next, rfl, ⟨-, -, hr⟩ | ⟨x, m₂, hr, hadv, hl⟩⟩ := resume_after h
  · obtain ⟨es, hes, hall⟩ := respond_panicked_trace hr
    refine ⟨es, hes, ?_⟩
    intro e he n hn
    have hrequest := hall e he
    cases e with
    | issued k p d step => simp [Event.request?] at hrequest
    | _ => cases hn
  · have hplays := (advance_after m₂ now (next x)).1
    rw [hadv] at hplays
    exact (Plays.cons (.request hr) hplays).announces

theorem step_announces (h : m.step? now a = some m') : Announces m m' := by
  cases a with
  | call op =>
    obtain rfl := call_cases h
    exact (advance_after m now _).1.announces
  | start lane =>
    obtain ⟨j, -, rfl⟩ := start_cases h
    exact (advance_after m now _).1.announces
  | resume t c =>
    cases t with
    | job lane =>
      obtain ⟨p, m₁, progress, -, hr, rfl⟩ := resume_cases h
      have hannounces := resume_announces hr
      exact hannounces
    | client i =>
      obtain ⟨p, m₁, progress, -, hr, rfl⟩ := resume_client_cases h
      have hannounces := resume_announces hr
      exact hannounces
  | drop i =>
    obtain rfl := drop_cases h
    exact .of_world rfl
  | callbackEnds pass capability result =>
    obtain ⟨p, -, rfl⟩ := callbackEnds_cases h
    exact .of_world rfl
  | activation t =>
    obtain ⟨s, -, rfl⟩ := activation_cases h
    exact .of_world rfl
  | restart =>
    obtain rfl := restart_cases h
    exact .of_world rfl

inductive Runs : Machine → List Action → Machine → Prop
  | refl (m : Machine) : Runs m [] m
  | step {m m₁ m' : Machine} {now : Timestamp} {actions : List Action} {a : Action}
      (h : Runs m actions m₁) (hs : m₁.step? now a = some m') : Runs m (actions ++ [a]) m'

theorem Runs.of_run? {m₀ : Machine} {actions rest : List Action} (h : Runs m₀ actions m)
    (hr : m.run? now rest = some m') : Runs m₀ (actions ++ rest) m' := by
  induction rest generalizing m actions with
  | nil =>
    obtain rfl := Option.some.inj hr
    rwa [List.append_nil]
  | cons a rest ih =>
    obtain ⟨m₁, hs, hr⟩ := Option.bind_eq_some_iff.mp hr
    have hrest := ih (h.step hs) hr
    rwa [List.append_assoc] at hrest

theorem end_of_step {n k : Nat} {result : CallbackEnd}
    (h : m.step? now (.callbackEnds n k result) = some m') :
    ∃ p, m.engine.passes[n]? = some p ∧ p.ends[k]? = some none ∧
      m'.engine.passes = m.engine.passes.set n { p with ends := p.ends.set k (some result) } := by
  simp only [step?, endCallback?, bind, Option.bind_eq_some_iff] at h
  obtain ⟨p, hp, h⟩ := h
  split at h
  · next hk =>
    obtain rfl := Option.some.inj h
    exact ⟨p, hp, hk, rfl⟩
  · cases h

theorem passes_of_step (h : m.step? now a = some m') (hr : a ≠ .restart)
    (ha : ∀ n k result, a ≠ .callbackEnds n k result) :
    m.engine.passes <+: m'.engine.passes := by
  cases step_cases h hr with
  | plays hplays hn => exact hn.passes ▸ hplays.extends.passes
  | panics _ _ _ _ he hn => rw [hn.passes, he]
  | callbackEnds he _ _ => exact absurd he (ha _ _ _)
  | activation _ _ he => rw [he]

theorem capabilities_of_step (h : m.step? now a = some m') (hr : a ≠ .restart) :
    m'.engine.capabilities = m.engine.capabilities := by
  cases step_cases h hr with
  | plays hplays hn => rw [hn.capabilities, hplays.extends.capabilities]
  | panics _ _ _ _ he hn => rw [hn.capabilities, he]
  | callbackEnds _ _ he => rw [he]
  | activation _ _ he => rw [he]

theorem pass_of_step {n : Nat} {q : Pass} (h : m.step? now a = some m') (hr : a ≠ .restart)
    (hq : m.engine.passes[n]? = some q) :
    ∃ ends, m'.engine.passes[n]? = some { q with ends } ∧ ends.length = q.ends.length ∧
      ∀ k, ends[k]?.join.toList = q.ends[k]?.join.toList ++ (a.end? n k).toList := by
  have hsame (hp : m'.engine.passes[n]? = some q) (ha : ∀ k, a.end? n k = none) :
      ∃ ends, m'.engine.passes[n]? = some { q with ends } ∧ ends.length = q.ends.length ∧
        ∀ k, ends[k]?.join.toList = q.ends[k]?.join.toList ++ (a.end? n k).toList := by
    refine ⟨q.ends, hp, rfl, ?_⟩
    intro k
    rw [ha, Option.toList_none, List.append_nil]
  by_cases ha : ∃ i j result, a = .callbackEnds i j result
  · obtain ⟨i, j, result, rfl⟩ := ha
    obtain ⟨p, hp, hj, hset⟩ := end_of_step h
    by_cases hi : i = n
    · subst hi
      obtain rfl := Option.some.inj (hp.symm.trans hq)
      have hlt := (List.getElem?_eq_some_iff.mp hp).1
      refine ⟨p.ends.set j (some result), by rw [hset, List.getElem?_set_self hlt], by simp, ?_⟩
      intro k
      by_cases hk : j = k
      · subst hk
        have hlt := (List.getElem?_eq_some_iff.mp hj).1
        simp [List.getElem?_set_self hlt, hj, Action.end?]
      · simp [List.getElem?_set_ne hk, Action.end?, hk]
    · apply hsame
      · rw [hset, List.getElem?_set_ne hi]
        exact hq
      · intro k
        simp [Action.end?, hi]
  · have hne : ∀ i j result, a ≠ .callbackEnds i j result := fun i j result he =>
      ha ⟨i, j, result, he⟩
    obtain ⟨t, ht⟩ := passes_of_step h hr hne
    have hlt := (List.getElem?_eq_some_iff.mp hq).1
    apply hsame
    · rw [← ht, List.getElem?_append_left hlt]
      exact hq
    · intro k
      cases a with
      | callbackEnds i j result => exact absurd rfl (hne i j result)
      | _ => rfl

structure Passing (names : List String) (p : ProvisionState) (d : DeviceState) (n i : Nat)
    (actions : List Action) (ends : List (Option CallbackEnd)) (m : Machine) : Prop where
  registered : m.engine.capabilities = names
  pass : m.engine.passes[n]? = some ⟨p, d, .resolve p d, ends⟩
  length : ends.length = names.length
  ended : ∀ k, callbackEnds n k actions = ends[k]?.join.toList
  client : m.engine.clients[i]? =
      some (.running (.wait (.join n) fun ends => .done (PolicyStep.reply p d ends))) ∨
    .drop i ∈ actions ∧ m.engine.clients[i]? = some .dropped ∨
    ∃ es : List CallbackEnd, ends = es.map some ∧
      m.engine.clients[i]? = some (.answered (PolicyStep.reply p d (names.zip es)))

section Passing

variable {names : List String} {p : ProvisionState} {d : DeviceState} {n i : Nat}
  {actions : List Action} {ends : List (Option CallbackEnd)}

theorem ends?_of_map {es : List CallbackEnd} {q : Pass} (hp : m.engine.passes[n]? = some q)
    (hq : q.ends = es.map some) : m.engine.ends? n = some (m.engine.capabilities.zip es) := by
  have hall : (es.map some).mapM id = some es := by
    clear hq
    induction es with
    | nil => rfl
    | cons e es ih => simp [ih]
  rw [Engine.ends?, hp, Option.bind_eq_bind, Option.bind_some, hq, hall]
  rfl

theorem map_of_ends? {q : Pass} {x : List (String × CallbackEnd)}
    (hp : m.engine.passes[n]? = some q) (h : m.engine.ends? n = some x) :
    ∃ es : List CallbackEnd, q.ends = es.map some ∧ x = m.engine.capabilities.zip es := by
  obtain ⟨q', hq', hzip⟩ := Option.bind_eq_some_iff.mp h
  obtain ⟨es, hes, hx⟩ := Option.bind_eq_some_iff.mp hzip
  obtain rfl := Option.some.inj (hp.symm.trans hq')
  exact ⟨es, eq_map_of_mapM hes, (Option.some.inj hx).symm⟩

theorem Passing.resumed (h : m.Passing names p d n i actions ends)
    (hrun : m.engine.clients[i]? =
      some (.running (.wait (.join n) fun ends => .done (PolicyStep.reply p d ends))))
    {c : Conduct} (hs : m.step? now (.resume (.client i) c) = some m') :
    ∃ es : List CallbackEnd, ends = es.map some ∧
      m'.engine.clients[i]? = some (.answered (PolicyStep.reply p d (names.zip es))) := by
  obtain ⟨q, m₁, progress, hq, hres, rfl⟩ := resume_client_cases hs
  obtain rfl : q = _ := Client.running.inj (Option.some.inj (hq.symm.trans hrun))
  have hlt := (List.getElem?_eq_some_iff.mp hrun).1
  cases hends : m.engine.ends? n with
  | none => simp [resume?, respond, hends] at hres
  | some x =>
    obtain ⟨es, he, rfl⟩ := map_of_ends? h.pass hends
    simp only [resume?, respond, hends, Option.elim_some, advance, Option.some.injEq,
      Prod.mk.injEq] at hres
    obtain ⟨rfl, rfl⟩ := hres
    refine ⟨es, he, ?_⟩
    rw [List.getElem?_set_self hlt, h.registered]
    rfl

theorem eq_map_of_added {es : List CallbackEnd} {ends' : List (Option CallbackEnd)}
    {added : Nat → List CallbackEnd} (hlength : ends'.length = es.length)
    (hends : ∀ k, ends'[k]?.join.toList = (es.map some)[k]?.join.toList ++ added k) :
    ends' = es.map some := by
  apply List.ext_getElem?
  intro k
  by_cases hlt : k < es.length
  · have hlt' : k < ends'.length := hlength ▸ hlt
    have hk : ends'[k]?.join.toList = [es[k]] ++ added k := by
      simpa [List.getElem?_map, hlt] using hends k
    rw [List.getElem?_eq_getElem hlt'] at hk ⊢
    cases hend : ends'[k] with
    | none => simp [hend] at hk
    | some e =>
      obtain ⟨rfl, -⟩ : e = es[k] ∧ [] = added k := by simpa [hend] using hk
      simp [hlt]
  · rw [List.getElem?_eq_none (by simpa [hlength] using hlt),
      List.getElem?_eq_none (by simpa using hlt)]

theorem ne_resume_of_client {k : Client} (hk : m.engine.clients[i]? = some k)
    (hrest : ∀ q, k ≠ .running q) (hs : m.step? now a = some m') (c : Conduct) :
    a ≠ .resume (.client i) c := by
  rintro rfl
  obtain ⟨q, m₁, progress, hq, -, -⟩ := resume_client_cases hs
  exact hrest q (Option.some.inj (hk.symm.trans hq))

theorem Passing.step (h : m.Passing names p d n i actions ends) (hs : m.step? now a = some m')
    (hr : a ≠ .restart) : ∃ ends', m'.Passing names p d n i (actions ++ [a]) ends' := by
  obtain ⟨ends', hpass, hlength, hends⟩ := pass_of_step hs hr h.pass
  have hended (k : Nat) : callbackEnds n k (actions ++ [a]) = ends'[k]?.join.toList := by
    have hold := h.ended k
    unfold callbackEnds at hold ⊢
    rw [List.filterMap_append, hold, hends, List.filterMap_cons, List.filterMap_nil]
    cases a.end? n k <;> rfl
  refine ⟨ends', (capabilities_of_step hs hr).trans h.registered, hpass,
    hlength.trans h.length, hended, ?_⟩
  -- All callbacks having ended is not undone.
  have hall {es : List CallbackEnd} (he : ends = es.map some) : ends' = es.map some := by
    subst he
    exact eq_map_of_added (by simpa using hlength) hends
  rcases h.client with hrun | ⟨hdrop, hclient⟩ | ⟨es, he, hclient⟩
  · by_cases hown : ∃ c, a = .resume (.client i) c
    · obtain ⟨c, rfl⟩ := hown
      obtain ⟨es, he, hanswered⟩ := h.resumed hrun hs
      exact .inr (.inr ⟨es, hall he, hanswered⟩)
    · rcases clients_of_step hs hr (fun c he => hown ⟨c, he⟩) hrun with hrun' | ⟨rfl, hdropped⟩
      · exact .inl hrun'
      · exact .inr (.inl ⟨by simp, hdropped⟩)
  · have hown := ne_resume_of_client hclient nofun hs
    rcases clients_of_step hs hr hown hclient with hkept | ⟨rfl, hdropped⟩
    · exact .inr (.inl ⟨List.mem_append_left _ hdrop, hkept⟩)
    · exact .inr (.inl ⟨List.mem_append_left _ hdrop, hdropped⟩)
  · have hown := ne_resume_of_client hclient nofun hs
    rcases clients_of_step hs hr hown hclient with hkept | ⟨rfl, hdropped⟩
    · exact .inr (.inr ⟨es, hall he, hkept⟩)
    · simp [step?, drop?, hclient] at hs

theorem launch_passing {m : Machine} (hstep : PolicyStep.resolve p d ≠ .idle) (now : Timestamp) :
    (m.launch now (Program.passing p d)).Passing m.engine.capabilities p d m.engine.passes.length
        m.engine.clients.length [] (m.engine.capabilities.map fun _ => none) ∧
      (m.launch now (Program.passing p d)).world.trace =
        .issued m.engine.passes.length p d (.resolve p d) :: m.world.trace := by
  rw [Program.passing_of_ne hstep]
  constructor
  · constructor
    · rfl
    · exact List.getElem?_concat_length
    · exact List.length_map _
    · intro k
      rw [List.getElem?_map]
      cases m.engine.capabilities[k]? <;> rfl
    · exact .inl List.getElem?_concat_length
  · rfl

theorem Runs.passing {m₁ : Machine} (h : Runs m₁ actions m')
    (h₁ : ∃ ends, m₁.Passing names p d n i [] ends) (hr : .restart ∉ actions) :
    (∃ ends, m'.Passing names p d n i actions ends) ∧
      ∃ later, m'.world.trace = later ++ m₁.world.trace ∧ ∀ e ∈ later, e.pass? ≠ some n := by
  induction h with
  | refl => exact ⟨h₁, [], rfl, by simp⟩
  | step h hs ih =>
    rw [List.mem_append, not_or, List.mem_singleton] at hr
    obtain ⟨⟨ends, hp⟩, later, htrace, hlater⟩ := ih hr.1
    obtain ⟨es, hes, hall⟩ := step_announces hs
    refine ⟨hp.step hs (Ne.symm hr.2), es ++ later, ?_, ?_⟩
    · rw [hes, htrace, List.append_assoc]
    · have hlt := (List.getElem?_eq_some_iff.mp hp.pass).1
      intro e he hn
      rcases List.mem_append.mp he with he | he
      · have hle := hall e he n hn
        omega
      · exact hlater e he hn

/-- What a pass that calls the capabilities back has come to. Its caller is client `i`. -/
structure FansOut (names : List String) (p : ProvisionState) (d : DeviceState) (n i : Nat)
    (actions : List Action) (m : Machine) : Prop where
  once : ∀ k, (callbackEnds n k actions).length ≤ 1
  free : ∀ k < names.length, callbackEnds n k actions = [] →
    ∀ now result, ∃ m', m.step? now (.callbackEnds n k result) = some m'
  waits : ∀ k < names.length, callbackEnds n k actions = [] → .drop i ∉ actions →
    (∃ rest, m.engine.clients[i]? = some (.running rest)) ∧
      ∀ now c, m.step? now (.resume (.client i) c) = none
  answers : (∀ k < names.length, callbackEnds n k actions ≠ []) → .drop i ∉ actions →
    (∃ result, m.engine.clients[i]? = some (.answered result)) ∨
      ∀ now c, ∃ m' result, m.step? now (.resume (.client i) c) = some m' ∧
        m'.engine.clients[i]? = some (.answered result)
  aggregates : ∀ result, m.engine.clients[i]? = some (.answered result) →
    ∃ ends : List CallbackEnd, ends.length = names.length ∧
      (∀ k, callbackEnds n k actions = ends[k]?.toList) ∧ Aggregates p d (names.zip ends) result

theorem Passing.unended (h : m.Passing names p d n i actions ends) {k : Nat}
    (hk : k < names.length) : callbackEnds n k actions = [] ↔ ends[k]? = some none := by
  have hlt : k < ends.length := h.length ▸ hk
  rw [h.ended k, List.getElem?_eq_getElem hlt]
  cases ends[k] <;> simp

theorem Passing.all_ended (h : m.Passing names p d n i actions ends)
    (hall : ∀ k < names.length, callbackEnds n k actions ≠ []) :
    ∃ es : List CallbackEnd, ends = es.map some := by
  cases hends : ends.mapM id with
  | some es => exact ⟨es, eq_map_of_mapM hends⟩
  | none =>
    obtain ⟨k, hk⟩ := exists_none_of_mapM hends
    have hlt : k < names.length := h.length ▸ (List.getElem?_eq_some_iff.mp hk).1
    exact absurd ((h.unended hlt).mpr hk) (hall k hlt)

theorem Passing.not_all_ended (h : m.Passing names p d n i actions ends) {k : Nat}
    (hk : k < names.length) (hend : callbackEnds n k actions = []) (es : List CallbackEnd) :
    ends ≠ es.map some := by
  rintro rfl
  have hopen := (h.unended hk).mp hend
  simp at hopen

theorem Passing.fansOut (h : m.Passing names p d n i actions ends) :
    m.FansOut names p d n i actions := by
  constructor
  · intro k
    rw [h.ended k]
    cases ends[k]?.join <;> simp
  · intro k hk hend now result
    simp [step?, endCallback?, h.pass, (h.unended hk).mp hend]
  · intro k hk hend hdrop
    rcases h.client with hrun | ⟨hdropped, -⟩ | ⟨es, he, -⟩
    · refine ⟨⟨_, hrun⟩, ?_⟩
      intro now c
      cases hs : m.step? now (.resume (.client i) c) with
      | none => rfl
      | some m' =>
        obtain ⟨es, he, -⟩ := h.resumed hrun hs
        exact absurd he (h.not_all_ended hk hend es)
    · exact absurd hdropped hdrop
    · exact absurd he (h.not_all_ended hk hend es)
  · intro hall hdrop
    rcases h.client with hrun | ⟨hdropped, -⟩ | ⟨es, -, hanswered⟩
    · right
      intro now c
      obtain ⟨es, rfl⟩ := h.all_ended hall
      have hends := ends?_of_map h.pass rfl
      have hne : (m.respond c (.join n)).2 ≠ .pending := by simp [respond, hends]
      obtain ⟨m₁, progress, hres⟩ := resume_of_answerable hne now
      have hs := resume_of_client hrun hres
      obtain ⟨es, -, hanswered⟩ := h.resumed hrun hs
      exact ⟨_, _, hs, hanswered⟩
    · exact absurd hdropped hdrop
    · exact .inl ⟨_, hanswered⟩
  · intro result hresult
    rcases h.client with hrun | ⟨-, hdropped⟩ | ⟨es, rfl, hanswered⟩
    · cases hrun.symm.trans hresult
    · cases hdropped.symm.trans hresult
    · cases hanswered.symm.trans hresult
      refine ⟨es, by simpa using h.length, ?_, aggregates_reply p d _⟩
      intro k
      rw [h.ended k, List.getElem?_map]
      cases es[k]? <;> rfl

end Passing

end Machine

theorem FailsAs.unique {e : CallbackEnd} {k k' : FailureKind} (h : FailsAs e k)
    (h' : FailsAs e k') : k = k' := by
  cases h <;> cases h' <;> rfl

theorem Failing.unique {ends : List (String × CallbackEnd)} {fs fs' : List CapabilityFailure}
    (h : Failing ends fs) (h' : Failing ends fs') : fs = fs' := by
  induction h generalizing fs' with
  | nil =>
    cases h'
    rfl
  | succeeded h ih =>
    cases h' with
    | succeeded h' => exact ih h'
    | failed he h' => cases he
  | failed he h ih =>
    cases h' with
    | succeeded h' => cases he
    | failed he' h' => rw [he.unique he', ih h']

theorem Aggregates.unique {p : ProvisionState} {d : DeviceState}
    {ends : List (String × CallbackEnd)} {r r' : Except Fault Reply} (h : Aggregates p d ends r)
    (h' : Aggregates p d ends r') : r = r' := by
  by_cases hall : ∀ e ∈ ends, e.2 = .returned true
  · rw [h.ok_iff.mpr hall, h'.ok_iff.mpr hall]
  · have hsome : ∃ e ∈ ends, e.2 ≠ .returned true := by
      simpa using hall
    obtain ⟨fs, hfs, rfl⟩ := h.error hsome
    obtain ⟨fs', hfs', rfl⟩ := h'.error hsome
    rw [hfs.unique hfs']

theorem Machine.FansOut.unique {names : List String} {p : ProvisionState} {d : DeviceState}
    {n i : Nat} {actions actions' : List Action} {m m' : Machine} {r r' : Except Fault Reply}
    (h : m.FansOut names p d n i actions) (h' : m'.FansOut names p d n i actions')
    (hsame : ∀ k, callbackEnds n k actions = callbackEnds n k actions')
    (hr : m.engine.clients[i]? = some (.answered r))
    (hr' : m'.engine.clients[i]? = some (.answered r')) : r = r' := by
  obtain ⟨ends, -, hends, ha⟩ := h.aggregates r hr
  obtain ⟨ends', -, hends', ha'⟩ := h'.aggregates r' hr'
  have heq : ends = ends' := by
    apply List.ext_getElem?
    intro k
    have htoList : ends[k]?.toList = ends'[k]?.toList := by rw [← hends, ← hends', hsame]
    simpa using congrArg List.head? htoList
  subst heq
  exact ha.unique ha'

def Event.callbacks (scripted : List ScriptedCapability) : Event → List LogEntry
  | issued _ _ _ step => scripted.map fun c => .callback c.name step
  | _ => []

def LogEntry.isCallback : LogEntry → Bool
  | callback _ _ => true
  | _ => false

namespace Simulation

def callbacks (s : Simulation) : List LogEntry := s.log.filter LogEntry.isCallback

theorem quietly_keeps (s : Simulation) (i : Nat) (step : Machine → Option Machine) :
    (s.quietly i step).log = s.log ∧ (s.quietly i step).scripted = s.scripted := by
  unfold quietly onEngine
  cases s.engines[i]? with
  | none => exact ⟨rfl, rfl⟩
  | some e =>
    dsimp only [Option.bind_eq_bind, Option.bind_some]
    cases step ⟨{ s.world with trace := [] }, e⟩ <;> exact ⟨rfl, rfl⟩

theorem callbacks_note (s : Simulation) (e : LogEntry) :
    (s.note e).callbacks = (if e.isCallback then [e] else []) ++ s.callbacks := by
  unfold note callbacks
  rw [List.filter_cons]
  split <;> rfl

theorem runCallback_keeps (s : Simulation) (engine pass capability : Nat) (name : String)
    (b : Behaviour) :
    (s.runCallback engine pass capability name b).callbacks = s.callbacks ∧
      (s.runCallback engine pass capability name b).scripted = s.scripted := by
  induction b generalizing s with
  | ends result =>
    obtain ⟨hlog, hscripted⟩ :=
      s.quietly_keeps engine fun m => m.endCallback? pass capability result
    exact ⟨congrArg (List.filter LogEntry.isCallback) hlog, hscripted⟩
  | delay ms next ih =>
    cases ms with
    | zero =>
      rw [runCallback]
      obtain ⟨hcallbacks, hscripted⟩ := ih (s.note (.resumed name s.now))
      exact ⟨hcallbacks.trans (callbacks_note _ _), hscripted⟩
    | succ ms => exact ⟨rfl, rfl⟩

theorem issue_calls (s : Simulation) (engine pass : Nat) (step : PolicyStep) :
    (s.issue engine pass step).callbacks =
        (s.scripted.map fun c => LogEntry.callback c.name step).reverse ++ s.callbacks ∧
      (s.issue engine pass step).scripted = s.scripted := by
  have hfold (cs : List ScriptedCapability) (k : Nat) (t : Simulation) :
      let u := (cs.zipIdx k).foldl (fun t c => (t.note (.callback c.1.name step)).runCallback
        engine pass c.2 c.1.name (c.1.behaviour step)) t
      u.callbacks = (cs.map fun c => LogEntry.callback c.name step).reverse ++ t.callbacks ∧
        u.scripted = t.scripted := by
    induction cs generalizing k t with
    | nil => exact ⟨rfl, rfl⟩
    | cons c cs ih =>
      obtain ⟨hcallbacks, hscripted⟩ := (t.note (.callback c.name step)).runCallback_keeps engine
        pass k c.name (c.behaviour step)
      obtain ⟨hrest, hkept⟩ := ih (k + 1) ((t.note (.callback c.name step)).runCallback engine
        pass k c.name (c.behaviour step))
      rw [hcallbacks, callbacks_note] at hrest
      constructor
      · simpa [LogEntry.isCallback] using hrest
      · exact hkept.trans hscripted
  exact hfold s.scripted 0 s

theorem react_calls (s : Simulation) (i : Nat) (e : Event) :
    (s.react i e).callbacks = (e.callbacks s.scripted).reverse ++ s.callbacks ∧
      (s.react i e).scripted = s.scripted := by
  cases e with
  | issued n p d step => exact issue_calls s i n step
  | called c v =>
    cases c with
    | exit =>
      rw [react]
      split <;> exact ⟨rfl, rfl⟩
    | _ => exact ⟨rfl, rfl⟩
  | wrote c v => exact ⟨rfl, rfl⟩
  | counted k => exact ⟨rfl, rfl⟩

theorem reacts_call (es : List Event) (s : Simulation) (i : Nat) :
    (es.foldl (fun s e => s.react i e) s).callbacks =
      (es.flatMap fun e => e.callbacks s.scripted).reverse ++ s.callbacks := by
  induction es generalizing s with
  | nil => rfl
  | cons e es ih =>
    obtain ⟨hcallbacks, hscripted⟩ := s.react_calls i e
    rw [List.foldl_cons, ih, hscripted, hcallbacks, List.flatMap_cons, List.reverse_append,
      List.append_assoc]

theorem launch_calls (s : Simulation) {e : Engine} (he : s.engine? = some e) (p : ProvisionState)
    (d : DeviceState) :
    (s.launch (Program.passing p d)).1.callbacks =
      (if PolicyStep.resolve p d = .idle then []
        else s.scripted.map fun c => .callback c.name (.resolve p d)).reverse ++ s.callbacks := by
  let m : Machine := ⟨{ s.world with trace := [] }, e⟩
  let m' := m.launch s.wall (Program.passing p d)
  let t : Simulation :=
    { s with
      world := { m'.world with trace := [] }
      engines := s.engines.set s.current m'.engine }
  have hact : (s.launch (Program.passing p d)).1 =
      m'.world.trace.reverse.foldl (fun t e => t.react s.current e) t := by
    have he : s.engines[s.current]? = some e := he
    simp only [launch, act?, onEngine, he]
    rfl
  rw [hact, reacts_call]
  show (m'.world.trace.reverse.flatMap fun e => e.callbacks s.scripted).reverse ++ s.callbacks = _
  simp only [m']
  by_cases hstep : PolicyStep.resolve p d = .idle
  · rw [if_pos hstep, Program.passing_of_idle hstep]
    rfl
  · rw [if_neg hstep, (Machine.launch_passing hstep s.wall).2]
    simp [m, Event.callbacks]

end Simulation

namespace Machine

/-- A pass for an idle pair calls no capability and is answered at once. For any other it calls each
of them once, whatever the others do, and the answer waits for all. It is the step if all returned
true, and otherwise names those that did not, in the order of registration. -/
theorem fan_out (m : Machine) (now : Timestamp) (p : ProvisionState) (d : DeviceState) :
    (PolicyStep.resolve p d = .idle → m.launch now (Program.passing p d) =
      { m with engine.clients := m.engine.clients ++ [.answered (.ok (.step .idle))] }) ∧
    (PolicyStep.resolve p d ≠ .idle → ∀ actions m',
      Runs (m.launch now (Program.passing p d)) actions m' → .restart ∉ actions →
        (∃ later, m'.world.trace =
            later ++ .issued m.engine.passes.length p d (.resolve p d) :: m.world.trace ∧
          ∀ e ∈ later, e.pass? ≠ some m.engine.passes.length) ∧
        m'.FansOut m.engine.capabilities p d m.engine.passes.length m.engine.clients.length
          actions ∧
        ∀ actions' m'', Runs (m.launch now (Program.passing p d)) actions' m'' →
          .restart ∉ actions' →
            (∀ k, callbackEnds m.engine.passes.length k actions =
              callbackEnds m.engine.passes.length k actions') →
            ∀ r r', m'.engine.clients[m.engine.clients.length]? = some (.answered r) →
              m''.engine.clients[m.engine.clients.length]? = some (.answered r') → r = r') ∧
    ∀ s : Simulation, (s.engine?.isSome → (s.launch (Program.passing p d)).1.callbacks =
        (if PolicyStep.resolve p d = .idle then []
          else s.scripted.map fun c => .callback c.name (.resolve p d)).reverse ++ s.callbacks) ∧
      ∀ i e, (s.react i e).callbacks = (e.callbacks s.scripted).reverse ++ s.callbacks := by
  refine ⟨?_, ?_, ?_⟩
  · intro hidle
    rw [Program.passing_of_idle hidle]
    rfl
  · intro hstep actions m' hruns hrestart
    obtain ⟨hpassing, htrace⟩ := launch_passing (m := m) hstep now
    obtain ⟨⟨ends, hend⟩, later, hlater, hnew⟩ := hruns.passing ⟨_, hpassing⟩ hrestart
    refine ⟨⟨later, by rw [hlater, htrace], hnew⟩, hend.fansOut, ?_⟩
    intro actions' m'' hruns' hrestart' hsame r r' hr hr'
    obtain ⟨⟨ends', hend'⟩, -⟩ := hruns'.passing ⟨_, hpassing⟩ hrestart'
    exact hend.fansOut.unique hend'.fansOut hsame hr hr'
  · intro s
    constructor
    · intro hengine
      obtain ⟨e, he⟩ := Option.isSome_iff_exists.mp hengine
      exact s.launch_calls he p d
    · intro i e
      exact (s.react_calls i e).1

def backwards : List Action :=
  [.callbackEnds 0 2 (.returned false), .callbackEnds 0 1 (.returned true),
    .callbackEnds 0 0 (.panicked none), .resume (.client 0) {}]

theorem fan_out_backwards :
    ∃ m', Runs ((plain ["roles", "restrictions", "roles"]).launch epoch
        (Program.passing .inProgress .unlocked)) backwards m' ∧
      m'.FansOut ["roles", "restrictions", "roles"] .inProgress .unlocked 0 0 backwards ∧
      m'.engine.clients[0]? = some (.answered (.error (.enforcement ⟨.inProgress, .unlocked,
        .provisionInProgress, [⟨"roles", .aborted none⟩, ⟨"roles", .returnedFalse⟩]⟩))) := by
  have hrun : (((plain ["roles", "restrictions", "roles"]).launch epoch
      (Program.passing .inProgress .unlocked)).run? epoch backwards).isSome := rfl
  obtain ⟨m', hm⟩ := Option.isSome_iff_exists.mp hrun
  have hruns := (Runs.refl _).of_run? hm
  refine ⟨m', hruns, ?_, ?_⟩
  · exact ((fan_out (plain ["roles", "restrictions", "roles"]) epoch .inProgress .unlocked).2.1
      (by decide) backwards m' hruns (by simp [backwards])).2.1
  · cases hm
    rfl

end Machine

end DeviceLock
