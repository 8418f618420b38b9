import DeviceLock.Engine.Operation
import Mathlib.Tactic.Simproc.ExistsAndEq

/-!
What a program does, as the list of its acts and requests with their answers. `ends_bind` cuts the
deeds of a sequence in two, and `walk_bind` those of a sequence that is not at its end.
-/

namespace DeviceLock

inductive Deed
  | act (a : Act) (x : a.Answer)
  | request (r : Request) (x : r.Answer)

namespace Program

variable {α β : Type}

inductive Walk : Program α → List Deed → Program α → Prop
  | stay (p : Program α) : Walk p [] p
  | act {a : Act} {next : a.Answer → Program α} {l : List Deed} {q : Program α} (x : a.Answer)
      (h : Walk (next x) l q) : Walk (.act a next) (.act a x :: l) q
  | wait {r : Request} {next : r.Answer → Program α} {l : List Deed} {q : Program α}
      (x : r.Answer) (h : Walk (next x) l q) : Walk (.wait r next) (.request r x :: l) q

def Ends (p : Program α) (l : List Deed) (r : Except Fault α) : Prop := Walk p l (done r)

theorem Walk.append {p q s : Program α} {l k : List Deed} (h : Walk p l q) (hk : Walk q k s) :
    Walk p (l ++ k) s := by
  induction h with
  | stay _ => exact hk
  | act x _ ih => exact .act x (ih hk)
  | wait x _ ih => exact .wait x (ih hk)

theorem walk_done {r : Except Fault α} {l : List Deed} {q : Program α} :
    Walk (done r) l q ↔ l = [] ∧ q = done r := by
  constructor
  · intro h
    cases h
    exact ⟨rfl, rfl⟩
  · rintro ⟨rfl, rfl⟩
    exact .stay _

theorem walk_act {a : Act} {next : a.Answer → Program α} {l : List Deed} {q : Program α} :
    Walk (act a next) l q ↔
      (l = [] ∧ q = act a next) ∨ ∃ x k, l = .act a x :: k ∧ Walk (next x) k q := by
  constructor
  · intro h
    cases h with
    | stay => exact .inl ⟨rfl, rfl⟩
    | act x h => exact .inr ⟨x, _, rfl, h⟩
  · rintro (⟨rfl, rfl⟩ | ⟨x, k, rfl, h⟩)
    · exact .stay _
    · exact .act x h

theorem walk_wait {r : Request} {next : r.Answer → Program α} {l : List Deed} {q : Program α} :
    Walk (wait r next) l q ↔
      (l = [] ∧ q = wait r next) ∨ ∃ x k, l = .request r x :: k ∧ Walk (next x) k q := by
  constructor
  · intro h
    cases h with
    | stay => exact .inl ⟨rfl, rfl⟩
    | wait x h => exact .inr ⟨x, _, rfl, h⟩
  · rintro (⟨rfl, rfl⟩ | ⟨x, k, rfl, h⟩)
    · exact .stay _
    · exact .wait x h

@[simp]
theorem ends_done {r s : Except Fault α} {l : List Deed} :
    Ends (done r) l s ↔ l = [] ∧ s = r := by
  simp [Ends, walk_done]

@[simp]
theorem ends_act {a : Act} {next : a.Answer → Program α} {l : List Deed} {r : Except Fault α} :
    Ends (act a next) l r ↔ ∃ x k, l = .act a x :: k ∧ Ends (next x) k r := by
  simp [Ends, walk_act]

@[simp]
theorem ends_wait {q : Request} {next : q.Answer → Program α} {l : List Deed}
    {r : Except Fault α} :
    Ends (wait q next) l r ↔ ∃ x k, l = .request q x :: k ∧ Ends (next x) k r := by
  simp [Ends, walk_wait]

theorem walk_bind {p : Program α} {f : α → Program β} {l : List Deed} {q : Program β}
    (h : Walk (p >>= f) l q) :
    (∃ s, Walk p l s ∧ q = s >>= f) ∨
      ∃ a k m, l = k ++ m ∧ Ends p k (.ok a) ∧ Walk (f a) m q := by
  induction p generalizing l with
  | done r =>
    cases r with
    | error e =>
      obtain ⟨rfl, rfl⟩ := walk_done.mp h
      exact .inl ⟨_, .stay _, rfl⟩
    | ok a => exact .inr ⟨a, [], l, rfl, .stay _, h⟩
  | act a next ih =>
    rcases walk_act.mp h with ⟨rfl, rfl⟩ | ⟨x, k, rfl, hx⟩
    · exact .inl ⟨_, .stay _, rfl⟩
    · rcases ih x hx with ⟨s, hs, rfl⟩ | ⟨b, k, m, rfl, hk, hm⟩
      · exact .inl ⟨s, .act x hs, rfl⟩
      · exact .inr ⟨b, .act a x :: k, m, rfl, .act x hk, hm⟩
  | wait r next ih =>
    rcases walk_wait.mp h with ⟨rfl, rfl⟩ | ⟨x, k, rfl, hx⟩
    · exact .inl ⟨_, .stay _, rfl⟩
    · rcases ih x hx with ⟨s, hs, rfl⟩ | ⟨b, k, m, rfl, hk, hm⟩
      · exact .inl ⟨s, .wait x hs, rfl⟩
      · exact .inr ⟨b, .request r x :: k, m, rfl, .wait x hk, hm⟩

theorem ends_bind {p : Program α} {f : α → Program β} {l : List Deed} {r : Except Fault β} :
    Ends (p >>= f) l r ↔
      (∃ e, Ends p l (.error e) ∧ r = .error e) ∨
        ∃ a k m, l = k ++ m ∧ Ends p k (.ok a) ∧ Ends (f a) m r := by
  induction p generalizing l with
  | done s =>
    cases s with
    | error e => simp [error_bind]
    | ok a => simp [done_bind]
  | act a next ih =>
    change Ends (.act a fun x => next x >>= f) l r ↔ _
    simp only [ends_act, ih]
    constructor
    · rintro ⟨x, k, rfl, ⟨e, h, rfl⟩ | ⟨b, k, m, rfl, hk, hm⟩⟩
      · exact .inl ⟨e, ⟨x, k, rfl, h⟩, rfl⟩
      · exact .inr ⟨b, .act a x :: k, m, rfl, ⟨x, k, rfl, hk⟩, hm⟩
    · rintro (⟨e, ⟨x, k, rfl, h⟩, rfl⟩ | ⟨b, _, m, rfl, ⟨x, k, rfl, hk⟩, hm⟩)
      · exact ⟨x, k, rfl, .inl ⟨e, h, rfl⟩⟩
      · exact ⟨x, k ++ m, rfl, .inr ⟨b, k, m, rfl, hk, hm⟩⟩
  | wait q next ih =>
    change Ends (.wait q fun x => next x >>= f) l r ↔ _
    simp only [ends_wait, ih]
    constructor
    · rintro ⟨x, k, rfl, ⟨e, h, rfl⟩ | ⟨b, k, m, rfl, hk, hm⟩⟩
      · exact .inl ⟨e, ⟨x, k, rfl, h⟩, rfl⟩
      · exact .inr ⟨b, .request q x :: k, m, rfl, ⟨x, k, rfl, hk⟩, hm⟩
    · rintro (⟨e, ⟨x, k, rfl, h⟩, rfl⟩ | ⟨b, _, m, rfl, ⟨x, k, rfl, hk⟩, hm⟩)
      · exact ⟨x, k, rfl, .inl ⟨e, h, rfl⟩⟩
      · exact ⟨x, k ++ m, rfl, .inr ⟨b, k, m, rfl, hk, hm⟩⟩

theorem ends_attempt {p : Program α} {l : List Deed} {r : Except Fault (Except Fault α)} :
    Ends (attempt p) l r ↔ ∃ s, Ends p l s ∧ r = .ok s := by
  induction p generalizing l with
  | done s => simp [attempt]
  | act a next ih =>
    simp only [attempt, ends_act, ih]
    constructor
    · rintro ⟨x, k, rfl, s, h, rfl⟩
      exact ⟨s, ⟨x, k, rfl, h⟩, rfl⟩
    · rintro ⟨s, ⟨x, k, rfl, h⟩, rfl⟩
      exact ⟨x, k, rfl, s, h, rfl⟩
  | wait q next ih =>
    simp only [attempt, ends_wait, ih]
    constructor
    · rintro ⟨x, k, rfl, s, h, rfl⟩
      exact ⟨s, ⟨x, k, rfl, h⟩, rfl⟩
    · rintro ⟨s, ⟨x, k, rfl, h⟩, rfl⟩
      exact ⟨x, k, rfl, s, h, rfl⟩

@[simp]
theorem ends_pure {a : α} {l : List Deed} {r : Except Fault α} :
    Ends (pure a) l r ↔ l = [] ∧ r = .ok a := ends_done

@[simp]
theorem ends_throw {e : Fault} {l : List Deed} {r : Except Fault α} :
    Ends (throw e) l r ↔ l = [] ∧ r = .error e := ends_done

@[simp]
theorem ends_ofExcept {s r : Except Fault α} {l : List Deed} :
    Ends (ofExcept s) l r ↔ l = [] ∧ r = s := ends_done

@[simp]
theorem ends_perform {a : Act} {l : List Deed} {r : Except Fault a.Answer} :
    Ends (perform a) l r ↔ ∃ x, l = [.act a x] ∧ r = .ok x := by
  simp [perform]

@[simp]
theorem ends_request {q : Request} {l : List Deed} {r : Except Fault q.Answer} :
    Ends (request q) l r ↔ ∃ x, l = [.request q x] ∧ r = .ok x := by
  simp [request]

theorem ends_discard {p : Program α} {l : List Deed} {r : Except Fault Unit} :
    Ends (discard p) l r ↔ ∃ s, Ends p l s ∧ r = s.map fun _ => () := by
  change Ends (p >>= fun _ => pure ()) l r ↔ _
  rw [ends_bind]
  constructor
  · rintro (⟨e, h, rfl⟩ | ⟨a, k, m, rfl, h, hm⟩)
    · exact ⟨_, h, rfl⟩
    · obtain ⟨rfl, rfl⟩ := ends_pure.mp hm
      exact ⟨.ok a, by simpa using h, rfl⟩
  · rintro ⟨s, h, rfl⟩
    cases s with
    | error e => exact .inl ⟨e, h, rfl⟩
    | ok a => exact .inr ⟨a, l, [], by simp, h, by simp [Except.map]⟩

theorem ends_attempt_bind {p : Program α} {f : Except Fault α → Program β} {l : List Deed}
    {r : Except Fault β} :
    Ends (attempt p >>= f) l r ↔ ∃ s k m, l = k ++ m ∧ Ends p k s ∧ Ends (f s) m r := by
  rw [ends_bind]
  constructor
  · rintro (⟨e, h, rfl⟩ | ⟨s, k, m, rfl, hk, hm⟩)
    · obtain ⟨s, -, hs⟩ := ends_attempt.mp h
      cases hs
    · obtain ⟨s', hs, hr⟩ := ends_attempt.mp hk
      obtain rfl := Except.ok.inj hr
      exact ⟨s, k, m, rfl, hs, hm⟩
  · rintro ⟨s, k, m, rfl, hk, hm⟩
    exact .inr ⟨s, k, m, rfl, ends_attempt.mpr ⟨s, hk, rfl⟩, hm⟩

theorem ends_perform_bind {a : Act} {f : a.Answer → Program β} {l : List Deed}
    {r : Except Fault β} :
    Ends (perform a >>= f) l r ↔ ∃ x k, l = .act a x :: k ∧ Ends (f x) k r := ends_act

theorem ends_request_bind {q : Request} {f : q.Answer → Program β} {l : List Deed}
    {r : Except Fault β} :
    Ends (request q >>= f) l r ↔ ∃ x k, l = .request q x :: k ∧ Ends (f x) k r := ends_wait

theorem ends_discard_request {q : Request} {f : Unit → Program β} {l : List Deed}
    {r : Except Fault β} :
    Ends (discard (request q) >>= f) l r ↔ ∃ x k, l = .request q x :: k ∧ Ends (f ()) k r :=
  ends_wait

theorem exists_except {ε : Type} {P : Except ε α → Prop} :
    (∃ x, P x) ↔ (∃ e, P (.error e)) ∨ ∃ a, P (.ok a) := by
  constructor
  · rintro ⟨e | a, h⟩
    · exact .inl ⟨e, h⟩
    · exact .inr ⟨a, h⟩
  · rintro (⟨e, h⟩ | ⟨a, h⟩)
    · exact ⟨_, h⟩
    · exact ⟨_, h⟩

theorem ends_error_bind {e : Fault} {f : α → Program β} {l : List Deed} {r : Except Fault β} :
    Ends (ofExcept (.error e) >>= f) l r ↔ l = [] ∧ r = .error e := ends_done

theorem ends_ok_bind {a : α} {f : α → Program β} {l : List Deed} {r : Except Fault β} :
    Ends (ofExcept (.ok a) >>= f) l r ↔ Ends (f a) l r := Iff.rfl

theorem mapError_error {ε δ : Type} (g : ε → δ) (e : ε) :
    (Except.error e : Except ε α).mapError g = .error (g e) := rfl

theorem mapError_ok {ε δ : Type} (g : ε → δ) (a : α) :
    (Except.ok a : Except ε α).mapError g = .ok a := rfl

theorem ends_cursor {f : ProvisionState → Program β} {l : List Deed} {r : Except Fault β} :
    Ends (cursor >>= f) l r ↔
      (∃ e, l = [.request .cursor (.error e)] ∧ r = .error (.storage e)) ∨
        ∃ p k, l = .request .cursor (.ok p) :: k ∧ Ends (f p) k r := by
  change Ends (.wait .cursor fun x => ofExcept (x.mapError .storage) >>= f) l r ↔ _
  simp [exists_except, mapError_error, mapError_ok, ends_error_bind, ends_ok_bind]

theorem ends_load {f : Document → Program β} {l : List Deed} {r : Except Fault β} :
    Ends (load >>= f) l r ↔
      (∃ e, l = [.request .load (.error e)] ∧ r = .error (.storage e)) ∨
        ∃ d k, l = .request .load (.ok d) :: k ∧ Ends (f d) k r := by
  change Ends (.wait .load fun x => ofExcept (x.mapError .storage) >>= f) l r ↔ _
  simp [exists_except, mapError_error, mapError_ok, ends_error_bind, ends_ok_bind]

theorem ends_write {c : Change} {f : Unit → Program β} {l : List Deed} {r : Except Fault β} :
    Ends (write c >>= f) l r ↔
      (∃ e, l = [.request (.write c) (.error e)] ∧ r = .error (.storage e)) ∨
        ∃ u k, l = .request (.write c) (.ok u) :: k ∧ Ends (f u) k r := by
  change Ends (.wait (.write c) fun x => ofExcept (x.mapError .storage) >>= f) l r ↔ _
  simp [exists_except, mapError_error, mapError_ok, ends_error_bind, ends_ok_bind]

theorem ends_call {c : Call} {g : String → Fault} {f : Unit → Program β} {l : List Deed}
    {r : Except Fault β} :
    Ends (call c g >>= f) l r ↔
      (∃ e, l = [.request (.call c) (.error e)] ∧ r = .error (g e)) ∨
        ∃ u k, l = .request (.call c) (.ok u) :: k ∧ Ends (f u) k r := by
  change Ends (.wait (.call c) fun x => ofExcept (x.mapError g) >>= f) l r ↔ _
  simp [exists_except, mapError_error, mapError_ok, ends_error_bind, ends_ok_bind]

@[simp]
theorem ends_await {j : Job} {l : List Deed} {r : Except Fault Reply} :
    Ends (await j) l r ↔ ∃ t, l = [.act (.submit j) t, .request (.await t) r] := by
  change Ends (.act (.submit j) fun t => .wait (.await t) fun x => ofExcept x) l r ↔ _
  simp

theorem ends_discard_await {j : Job} {f : Unit → Program β} {l : List Deed}
    {r : Except Fault β} :
    Ends (discard (await j) >>= f) l r ↔
      (∃ t e, l = [.act (.submit j) t, .request (.await t) (.error e)] ∧ r = .error e) ∨
        ∃ t a k, l = .act (.submit j) t :: .request (.await t) (.ok a) :: k ∧
          Ends (f ()) k r := by
  have hbind : discard (await j) >>= f = await j >>= fun _ => f () := by
    change (await j >>= fun _ => pure ()) >>= f = _
    rw [bind_assoc]
    rfl
  rw [hbind, ends_bind]
  constructor
  · rintro (⟨e, h, rfl⟩ | ⟨a, k, m, rfl, h, hm⟩)
    · obtain ⟨t, rfl⟩ := ends_await.mp h
      exact .inl ⟨t, e, rfl, rfl⟩
    · obtain ⟨t, rfl⟩ := ends_await.mp h
      exact .inr ⟨t, a, m, rfl, hm⟩
  · rintro (⟨t, e, rfl, rfl⟩ | ⟨t, a, k, rfl, h⟩)
    · exact .inl ⟨e, ends_await.mpr ⟨t, rfl⟩, rfl⟩
    · exact .inr ⟨a, _, k, rfl, ends_await.mpr ⟨t, rfl⟩, h⟩

theorem walk_asked {r : Request} {g : r.Answer → Except Fault α} {f : α → Program β}
    {l : List Deed} {q : Program β} (h : Walk (.wait r fun x => ofExcept (g x) >>= f) l q) :
    l = [] ∨ (∃ x e, g x = .error e ∧ l = [.request r x]) ∨
      ∃ x a k, g x = .ok a ∧ l = .request r x :: k ∧ Walk (f a) k q := by
  rcases walk_wait.mp h with ⟨rfl, -⟩ | ⟨x, k, rfl, hk⟩
  · exact .inl rfl
  cases hx : g x with
  | error e =>
    rw [hx] at hk
    obtain ⟨rfl, -⟩ := walk_done.mp hk
    exact .inr (.inl ⟨x, e, hx, rfl⟩)
  | ok a =>
    rw [hx] at hk
    exact .inr (.inr ⟨x, a, k, hx, rfl, hk⟩)

theorem mapError_eq_error {ε δ : Type} {g : ε → δ} {x : Except ε α} {e : δ}
    (h : x.mapError g = .error e) : ∃ f, x = .error f := by
  cases x with
  | error f => exact ⟨f, rfl⟩
  | ok a => cases h

theorem mapError_eq_ok {ε δ : Type} {g : ε → δ} {x : Except ε α} {a : α}
    (h : x.mapError g = .ok a) : x = .ok a := by
  cases x with
  | error f => cases h
  | ok b => exact congrArg Except.ok (Except.ok.inj h)

theorem walk_cursor {f : ProvisionState → Program α} {l : List Deed} {q : Program α}
    (h : Walk (cursor >>= f) l q) :
    l = [] ∨ (∃ e, l = [.request .cursor (.error e)]) ∨
      ∃ p k, l = .request .cursor (.ok p) :: k ∧ Walk (f p) k q := by
  rcases walk_asked (r := .cursor) (g := fun x => x.mapError .storage) h with
    hl | ⟨x, e, hx, rfl⟩ | ⟨x, p, k, hx, rfl, hk⟩
  · exact .inl hl
  · obtain ⟨e, rfl⟩ := mapError_eq_error hx
    exact .inr (.inl ⟨e, rfl⟩)
  · obtain rfl := mapError_eq_ok hx
    exact .inr (.inr ⟨p, k, rfl, hk⟩)

theorem walk_load {f : Document → Program α} {l : List Deed} {q : Program α}
    (h : Walk (load >>= f) l q) :
    l = [] ∨ (∃ e, l = [.request .load (.error e)]) ∨
      ∃ d k, l = .request .load (.ok d) :: k ∧ Walk (f d) k q := by
  rcases walk_asked (r := .load) (g := fun x => x.mapError .storage) h with
    hl | ⟨x, e, hx, rfl⟩ | ⟨x, d, k, hx, rfl, hk⟩
  · exact .inl hl
  · obtain ⟨e, rfl⟩ := mapError_eq_error hx
    exact .inr (.inl ⟨e, rfl⟩)
  · obtain rfl := mapError_eq_ok hx
    exact .inr (.inr ⟨d, k, rfl, hk⟩)

theorem walk_write {c : Change} {f : Unit → Program α} {l : List Deed} {q : Program α}
    (h : Walk (write c >>= f) l q) :
    l = [] ∨ (∃ e, l = [.request (.write c) (.error e)]) ∨
      ∃ u k, l = .request (.write c) (.ok u) :: k ∧ Walk (f u) k q := by
  rcases walk_asked (r := .write c) (g := fun x => x.mapError .storage) h with
    hl | ⟨x, e, hx, rfl⟩ | ⟨x, u, k, hx, rfl, hk⟩
  · exact .inl hl
  · obtain ⟨e, rfl⟩ := mapError_eq_error hx
    exact .inr (.inl ⟨e, rfl⟩)
  · obtain rfl := mapError_eq_ok hx
    exact .inr (.inr ⟨u, k, rfl, hk⟩)

theorem walk_attempt {p : Program α} {l : List Deed} {q : Program (Except Fault α)}
    (h : Walk (attempt p) l q) : ∃ s, Walk p l s := by
  induction p generalizing l with
  | done r =>
    obtain ⟨rfl, -⟩ := walk_done.mp h
    exact ⟨_, .stay _⟩
  | act a next ih =>
    rcases walk_act.mp h with ⟨rfl, -⟩ | ⟨x, k, rfl, hk⟩
    · exact ⟨_, .stay _⟩
    · obtain ⟨s, hs⟩ := ih x hk
      exact ⟨s, .act x hs⟩
  | wait r next ih =>
    rcases walk_wait.mp h with ⟨rfl, -⟩ | ⟨x, k, rfl, hk⟩
    · exact ⟨_, .stay _⟩
    · obtain ⟨s, hs⟩ := ih x hk
      exact ⟨s, .wait x hs⟩

theorem Walk.bind {p q : Program α} {l : List Deed} (h : Walk p l q) (f : α → Program β) :
    Walk (p >>= f) l (q >>= f) := by
  induction h with
  | stay p => exact .stay _
  | act x _ ih => exact .act x ih
  | wait x _ ih => exact .wait x ih

theorem Walk.attempt {p q : Program α} {l : List Deed} (h : Walk p l q) :
    Walk (attempt p) l q.attempt := by
  induction h with
  | stay p => exact .stay _
  | act x _ ih => exact .act x ih
  | wait x _ ih => exact .wait x ih

theorem Walk.cancel {p q s : Program α} {k l : List Deed} (h : Walk p k q)
    (hl : Walk p (k ++ l) s) : Walk q l s := by
  induction h with
  | stay p => exact hl
  | act x _ ih =>
    rcases walk_act.mp hl with ⟨hnil, -⟩ | ⟨y, m, hm, hy⟩
    · cases hnil
    · cases hm
      exact ih hy
  | wait x _ ih =>
    rcases walk_wait.mp hl with ⟨hnil, -⟩ | ⟨y, m, hm, hy⟩
    · cases hnil
    · cases hm
      exact ih hy

theorem walk_attempt_bind {p : Program α} {f : Except Fault α → Program β} {l : List Deed}
    {q : Program β} (h : Walk (attempt p >>= f) l q) :
    (∃ s, Walk p l s) ∨ ∃ r k m, l = k ++ m ∧ Ends p k r ∧ Walk (f r) m q := by
  rcases walk_bind h with ⟨s, hs, -⟩ | ⟨r, k, m, rfl, hk, hm⟩
  · exact .inl (walk_attempt hs)
  · obtain ⟨s, hk, hr⟩ := ends_attempt.mp hk
    obtain rfl := Except.ok.inj hr
    exact .inr ⟨r, k, m, rfl, hk, hm⟩

end Program

end DeviceLock
