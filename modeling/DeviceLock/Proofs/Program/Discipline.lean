import DeviceLock.Proofs.Program.Jobs

/-!
Rules for programs that depend on what they have done so far. A discipline has a state that every
deed moves on; `Obeys.walk` hands it on along the deeds of a program that keeps to it.
-/

namespace DeviceLock

structure Discipline (σ : Type) where
  acts : σ → Act → Prop
  requests : σ → Request → Prop
  answers : σ → (r : Request) → r.Answer → Prop := fun _ _ _ => True
  next : σ → Deed → σ

namespace Discipline

variable {σ : Type} {D : Discipline σ} {R : σ → Deed → Prop} {s : σ} {k l : List Deed}

def Admits (D : Discipline σ) (s : σ) : Deed → Prop
  | .act a _ => D.acts s a
  | .request r _ => D.requests s r

def Answered (D : Discipline σ) (s : σ) : Deed → Prop
  | .act _ _ => True
  | .request r x => D.answers s r x

def Along (D : Discipline σ) (R : σ → Deed → Prop) : σ → List Deed → Prop
  | _, [] => True
  | s, d :: l => R s d ∧ D.Along R (D.next s d) l

theorem along_append :
    D.Along R s (k ++ l) ↔ D.Along R s k ∧ D.Along R (k.foldl D.next s) l := by
  induction k generalizing s with
  | nil => exact (true_and _).symm.to_iff
  | cons d k ih => exact (and_congr_right fun _ => ih).trans and_assoc.symm

theorem along_of_forall (h : ∀ s, ∀ d ∈ l, R s d) : D.Along R s l := by
  induction l generalizing s with
  | nil => trivial
  | cons d l ih =>
    exact ⟨h s d List.mem_cons_self, ih fun s e he => h s e (List.mem_cons_of_mem _ he)⟩

end Discipline

namespace Program

variable {σ α β : Type} {D : Discipline σ} {Q R : σ → Except Fault α → Prop} {s : σ}
  {p q : Program α} {l : List Deed}

def Obeys (D : Discipline σ) (Q : σ → Except Fault α → Prop) : σ → Program α → Prop
  | s, done r => Q s r
  | s, act a next => D.acts s a ∧ ∀ x, (next x).Obeys D Q (D.next s (.act a x))
  | s, wait r next =>
    D.requests s r ∧ ∀ x, D.answers s r x → (next x).Obeys D Q (D.next s (.request r x))

theorem Obeys.imp (h : p.Obeys D Q s) (hQR : ∀ s r, Q s r → R s r) : p.Obeys D R s := by
  induction p generalizing s with
  | done r => exact hQR s r h
  | act a next ih => exact ⟨h.1, fun x => ih x (h.2 x)⟩
  | wait r next ih => exact ⟨h.1, fun x hx => ih x (h.2 x hx)⟩

theorem obeys_bind {f : α → Program β} {Q : σ → Except Fault β → Prop}
    (hp : p.Obeys D R s) (hok : ∀ s a, R s (.ok a) → (f a).Obeys D Q s)
    (herror : ∀ s e, R s (.error e) → Q s (.error e)) : (p >>= f).Obeys D Q s := by
  induction p generalizing s with
  | done r =>
    cases r with
    | error e => exact herror s e hp
    | ok a => exact hok s a hp
  | act a next ih => exact ⟨hp.1, fun x => ih x (hp.2 x)⟩
  | wait r next ih => exact ⟨hp.1, fun x hx => ih x (hp.2 x hx)⟩

theorem obeys_attempt_bind {f : Except Fault α → Program β} {Q : σ → Except Fault β → Prop}
    (hp : p.Obeys D R s) (hf : ∀ s r, R s r → (f r).Obeys D Q s) :
    (attempt p >>= f).Obeys D Q s := by
  induction p generalizing s with
  | done r => exact hf s r hp
  | act a next ih => exact ⟨hp.1, fun x => ih x (hp.2 x)⟩
  | wait r next ih => exact ⟨hp.1, fun x hx => ih x (hp.2 x hx)⟩

theorem obeys_perform {a : Act} {f : a.Answer → Program β} {Q : σ → Except Fault β → Prop}
    (ha : D.acts s a) (hf : ∀ x, (f x).Obeys D Q (D.next s (.act a x))) :
    (perform a >>= f).Obeys D Q s := ⟨ha, hf⟩

theorem obeys_request {r : Request} {f : r.Answer → Program β} {Q : σ → Except Fault β → Prop}
    (hr : D.requests s r)
    (hf : ∀ x, D.answers s r x → (f x).Obeys D Q (D.next s (.request r x))) :
    (request r >>= f).Obeys D Q s := ⟨hr, hf⟩

theorem obeys_cursor {f : ProvisionState → Program β} {Q : σ → Except Fault β → Prop}
    (hr : D.requests s .cursor)
    (herror : ∀ e, Q (D.next s (.request .cursor (.error e))) (.error (.storage e)))
    (hok : ∀ p, D.answers s .cursor (.ok p) →
      (f p).Obeys D Q (D.next s (.request .cursor (.ok p)))) :
    (cursor >>= f).Obeys D Q s := by
  refine ⟨hr, fun x hx => ?_⟩
  cases x with
  | error e => exact herror e
  | ok p => exact hok p hx

theorem obeys_load {f : Document → Program β} {Q : σ → Except Fault β → Prop}
    (hr : D.requests s .load)
    (herror : ∀ e, Q (D.next s (.request .load (.error e))) (.error (.storage e)))
    (hok : ∀ doc, D.answers s .load (.ok doc) →
      (f doc).Obeys D Q (D.next s (.request .load (.ok doc)))) :
    (load >>= f).Obeys D Q s := by
  refine ⟨hr, fun x hx => ?_⟩
  cases x with
  | error e => exact herror e
  | ok doc => exact hok doc hx

theorem obeys_write {c : Change} {f : Unit → Program β} {Q : σ → Except Fault β → Prop}
    (hr : D.requests s (.write c))
    (herror : ∀ e, Q (D.next s (.request (.write c) (.error e))) (.error (.storage e)))
    (hok : (f ()).Obeys D Q (D.next s (.request (.write c) (.ok ())))) :
    (write c >>= f).Obeys D Q s := by
  refine ⟨hr, fun x _ => ?_⟩
  cases x with
  | error e => exact herror e
  | ok u => exact hok

theorem Meets.obeys {F : Footprint} {P : Except Fault α → Prop} (h : p.Meets F P)
    (ha : ∀ a, F.acts a → D.acts s a ∧ ∀ x, D.next s (.act a x) = s)
    (hr : ∀ r, F.requests r → D.requests s r ∧ ∀ x, D.answers s r x →
      F.answers r x ∧ D.next s (.request r x) = s) :
    p.Obeys D (fun s' r => s' = s ∧ P r) s := by
  induction p with
  | done r => exact ⟨rfl, h⟩
  | act a next ih =>
    obtain ⟨hacts, hnext⟩ := ha a h.1
    refine ⟨hacts, fun x => ?_⟩
    rw [hnext]
    exact ih x (h.2 x)
  | wait r next ih =>
    obtain ⟨hrequests, hnext⟩ := hr r h.1
    refine ⟨hrequests, fun x hx => ?_⟩
    obtain ⟨hanswers, hsame⟩ := hnext x hx
    rw [hsame]
    exact ih x (h.2 x hanswers)

theorem Obeys.walk (h : p.Obeys D Q s) (hw : Walk p l q) (hl : D.Along D.Answered s l) :
    D.Along D.Admits s l ∧ q.Obeys D Q (l.foldl D.next s) := by
  induction hw generalizing s with
  | stay _ => exact ⟨trivial, h⟩
  | act x _ ih =>
    obtain ⟨hadmits, hq⟩ := ih (h.2 x) hl.2
    exact ⟨⟨h.1, hadmits⟩, hq⟩
  | wait x _ ih =>
    obtain ⟨hadmits, hq⟩ := ih (h.2 x hl.1) hl.2
    exact ⟨⟨h.1, hadmits⟩, hq⟩

end Program

end DeviceLock
