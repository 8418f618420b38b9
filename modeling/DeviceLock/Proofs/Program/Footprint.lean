import DeviceLock.Proofs.Program.Walk

/-!
What the programs of a task can do at all. `Program.Meets` says of every way through a program that
its acts and requests are of a given kind and that it ends as it should.
-/

namespace DeviceLock

structure Footprint where
  acts : Act → Prop
  requests : Request → Prop
  answers : (r : Request) → r.Answer → Prop := fun _ _ => True

namespace Deed

def Within (F : Footprint) : Deed → Prop
  | act a _ => F.acts a
  | request r _ => F.requests r

def Answered (F : Footprint) : Deed → Prop
  | act _ _ => True
  | request r x => F.answers r x

end Deed

namespace Program

variable {α β : Type} {F : Footprint}

def Meets (F : Footprint) (Q : Except Fault α → Prop) : Program α → Prop
  | done r => Q r
  | act a next => F.acts a ∧ ∀ x, (next x).Meets F Q
  | wait r next => F.requests r ∧ ∀ x, F.answers r x → (next x).Meets F Q

def Within (F : Footprint) (p : Program α) : Prop := p.Meets F fun _ => True

@[simp]
theorem meets_done {Q : Except Fault α → Prop} {r : Except Fault α} :
    (done r).Meets F Q ↔ Q r := Iff.rfl

@[simp]
theorem meets_pure {Q : Except Fault α → Prop} {a : α} :
    (pure a : Program α).Meets F Q ↔ Q (.ok a) := Iff.rfl

@[simp]
theorem meets_throw {Q : Except Fault α → Prop} {e : Fault} :
    (throw e : Program α).Meets F Q ↔ Q (.error e) := Iff.rfl

@[simp]
theorem meets_ofExcept {Q : Except Fault α → Prop} {r : Except Fault α} :
    (ofExcept r).Meets F Q ↔ Q r := Iff.rfl

@[simp]
theorem meets_act {Q : Except Fault α → Prop} {a : Act} {next : a.Answer → Program α} :
    (act a next).Meets F Q ↔ F.acts a ∧ ∀ x, (next x).Meets F Q := Iff.rfl

@[simp]
theorem meets_wait {Q : Except Fault α → Prop} {r : Request} {next : r.Answer → Program α} :
    (wait r next).Meets F Q ↔ F.requests r ∧ ∀ x, F.answers r x → (next x).Meets F Q := Iff.rfl

def Then (F : Footprint) (f : α → Program β) (Q : Except Fault β → Prop) : Except Fault α → Prop
  | .ok a => (f a).Meets F Q
  | .error e => Q (.error e)

@[simp]
theorem then_ok {f : α → Program β} {Q : Except Fault β → Prop} {a : α} :
    Then F f Q (.ok a) ↔ (f a).Meets F Q := Iff.rfl

@[simp]
theorem then_error {f : α → Program β} {Q : Except Fault β → Prop} {e : Fault} :
    Then F f Q (.error e) ↔ Q (.error e) := Iff.rfl

@[simp]
theorem meets_bind {p : Program α} {f : α → Program β} {Q : Except Fault β → Prop} :
    (p >>= f).Meets F Q ↔ p.Meets F (Then F f Q) := by
  induction p with
  | done r => cases r <;> rfl
  | act a next ih => exact and_congr_right fun _ => forall_congr' ih
  | wait r next ih =>
    exact and_congr_right fun _ => forall_congr' fun x => imp_congr_right fun _ => ih x

@[simp]
theorem meets_attempt {p : Program α} {Q : Except Fault (Except Fault α) → Prop} :
    (attempt p).Meets F Q ↔ p.Meets F fun r => Q (.ok r) := by
  induction p with
  | done r => rfl
  | act a next ih => exact and_congr_right fun _ => forall_congr' ih
  | wait r next ih =>
    exact and_congr_right fun _ => forall_congr' fun x => imp_congr_right fun _ => ih x

@[simp]
theorem meets_discard {p : Program α} {Q : Except Fault Unit → Prop} :
    (discard p).Meets F Q ↔ p.Meets F fun r => Q (r.map fun _ => ()) := by
  change (p >>= fun _ => pure ()).Meets F Q ↔ _
  rw [meets_bind]
  apply iff_of_eq
  congr 1
  funext r
  cases r <;> rfl

theorem Meets.imp {p : Program α} {Q R : Except Fault α → Prop} (h : p.Meets F Q)
    (hQR : ∀ r, Q r → R r) : p.Meets F R := by
  induction p with
  | done r => exact hQR r h
  | act a next ih => exact ⟨h.1, fun x => ih x (h.2 x)⟩
  | wait r next ih => exact ⟨h.1, fun x hx => ih x (h.2 x hx)⟩

def FailsIn (P : Fault → Prop) : Except Fault α → Prop
  | .ok _ => True
  | .error e => P e

theorem failsIn_bind {P : Fault → Prop} {p : Program α} {f : α → Program β}
    (hp : p.Meets F (FailsIn P)) (hf : ∀ a, (f a).Meets F (FailsIn P)) :
    (p >>= f).Meets F (FailsIn P) := by
  apply meets_bind.mpr
  apply hp.imp
  intro r hr
  cases r with
  | error e => exact hr
  | ok a => exact hf a

theorem Meets.within {p : Program α} {Q : Except Fault α → Prop} (h : p.Meets F Q) :
    p.Within F := h.imp fun _ _ => trivial

theorem Within.mono {G : Footprint} {p : Program α} (h : p.Within F)
    (ha : ∀ a, F.acts a → G.acts a) (hr : ∀ r, F.requests r → G.requests r)
    (hx : ∀ r x, G.answers r x → F.answers r x) : p.Within G := by
  induction p with
  | done r => trivial
  | act a next ih => exact ⟨ha a h.1, fun x => ih x (h.2 x)⟩
  | wait r next ih => exact ⟨hr r h.1, fun x hy => ih x (h.2 x (hx r x hy))⟩

theorem Meets.walk {p q : Program α} {Q : Except Fault α → Prop} {l : List Deed}
    (h : p.Meets F Q) (hw : Walk p l q) (ha : ∀ d ∈ l, d.Answered F) :
    (∀ d ∈ l, d.Within F) ∧ q.Meets F Q := by
  induction hw with
  | stay _ => exact ⟨by simp, h⟩
  | act x _ ih =>
    obtain ⟨hl, hq⟩ := ih (h.2 x) fun d hd => ha d (List.mem_cons_of_mem _ hd)
    exact ⟨List.forall_mem_cons.mpr ⟨h.1, hl⟩, hq⟩
  | wait x _ ih =>
    have hx := ha _ List.mem_cons_self
    obtain ⟨hl, hq⟩ := ih (h.2 x hx) fun d hd => ha d (List.mem_cons_of_mem _ hd)
    exact ⟨List.forall_mem_cons.mpr ⟨h.1, hl⟩, hq⟩

theorem Within.walk {p q : Program α} {l : List Deed} (h : p.Within F)
    (hx : ∀ r x, F.answers r x) (hw : Walk p l q) : ∀ d ∈ l, d.Within F := by
  apply (Meets.walk h hw _).1
  intro d _
  cases d with
  | act a x => trivial
  | request r x => exact hx r x

end Program

def Footprint.enforcing : Footprint where
  acts
    | .issue _ _ _ | .schedule _ | .cancel | .count _ => True
    | _ => False
  requests
    | .cursor | .load | .ask _ | .join _ => True
    | .call c => c = .exit
    | .write _ | .await _ => False

def Footprint.escalating : Footprint where
  acts := Footprint.enforcing.acts
  requests
    | .call c => c = .exit ∨ (∃ r, c = .reset r) ∨ (∃ r, c = .reportCritical r) ∨
        (∃ a s, c = .alarm a s) ∨ ∃ r, c = .terminate r
    | r => Footprint.enforcing.requests r

def Footprint.entering : Footprint where
  acts a := a = .now
  requests
    | .write c => c.key = .startTime
    | .call c => ∃ k, c = .platform k
    | _ => False

def Footprint.advancing : Footprint where
  acts
    | .moveCursor _ | .count _ | .now => True
    | _ => False
  requests
    | .cursor => True
    | .write c => c.key = .provision ∨ c.key = .startTime
    | .call c => ∃ k, c = .platform k
    | _ => False

def Footprint.measuring : Footprint where
  acts a := a = .pseudo
  requests
    | .cursor | .load => True
    | _ => False

def Footprint.moving (Q : ProvisionState → Prop) : Footprint where
  acts
    | .moveCursor s => Q s
    | _ => True
  requests
    | .write (.provision s) => Q s
    | _ => True
  answers
    | .cursor, .ok s => Q s
    | _, _ => True

def Lane.footprint : Lane → Footprint
  | .policy => {
      acts := fun
        | .moveCursor _ | .issue _ _ _ | .schedule _ | .cancel | .count _ | .now => True
        | .pseudo | .setPseudo _ | .latest | .submit _ => False
      requests := fun
        | .cursor | .load | .ask _ | .join _ => True
        | .write c => c.key = .provision ∨ c.key = .startTime
        | .call c => c ≠ .reportFinalized
        | .await _ => False }
  | .requests => {
      acts := fun
        | .pseudo | .setPseudo _ => True
        | .submit j => j = .policy .enforce ∨ j = .policy (.transition .success) ∨
            j = .finalization .cleared
        | _ => False
      requests := fun
        | .cursor | .load | .await _ => True
        | .write c => c.key = .device
        | .call _ | .ask _ | .join _ => False }
  | .finalization => {
      acts := fun _ => False
      requests := fun
        | .load => True
        | .write c => ∃ s, c = .finalization s ∧ s ≠ .unfinalized
        | .call c => c = .reportFinalized ∨ ∃ s, c = .alarm .finalizationReportRetry s
        | .cursor | .ask _ | .join _ | .await _ => False }

def Footprint.asking (J : Job → Prop) : Footprint where
  acts
    | .submit j => J j
    | .pseudo | .latest => True
    | .moveCursor _ | .setPseudo _ | .issue _ _ _ | .schedule _ | .cancel | .count _ | .now => False
  requests
    | .cursor | .load | .ask _ | .await _ => True
    | .write c => c.key = .setupTimedOut ∨ c.key = .provisioningReady
    | .call c => ∃ s, c = .alarm .setupCompletionTimeout s
    | .join _ => False

def Footprint.caller (J : Job → Prop) : Footprint where
  acts
    | .submit j => J j
    | .pseudo | .latest | .schedule _ | .cancel => True
    | .moveCursor _ | .setPseudo _ | .issue _ _ _ | .count _ | .now => False
  requests
    | .cursor | .load | .ask _ | .await _ => True
    | .write c => c.key = .setupTimedOut ∨ c.key = .provisioningReady
    | .call c => c = .exit ∨ ∃ s, c = .alarm .setupCompletionTimeout s
    | .join _ => False

end DeviceLock
