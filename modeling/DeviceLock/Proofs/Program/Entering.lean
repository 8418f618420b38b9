import DeviceLock.Proofs.Program.Discipline

namespace DeviceLock

structure EntryRecord where
  seen : Option ProvisionState := none
  started : Bool := false
  enabled : Bool := false

namespace EntryRecord

def next : EntryRecord → Deed → EntryRecord
  | s, .act (.moveCursor p) _ => { s with seen := some p }
  | s, .request .cursor (.ok p) => { s with seen := some p }
  | s, .request (.write (.startTime _)) (.ok _) => { s with started := true }
  | s, .request (.call (.platform .enableSetup)) (.ok _) => { s with enabled := true }
  | s, _ => s

def Admitted (s : EntryRecord) (p : ProvisionState) : Prop :=
  s.seen = some p ∧ (p = .unprovisioned → s.started = true ∧ s.enabled = true)

end EntryRecord

def Discipline.entering : Discipline EntryRecord where
  acts
    | s, .moveCursor n => n = .unprovisioned ∨ ∃ p, s.Admitted p
    | _, _ => True
  requests
    | s, .write c =>
      (c.key = .provision → s.seen ≠ none) ∧ (c.key = .startTime → s.seen = some .unprovisioned)
    | _, _ => True
  answers
    | s, .cursor, .ok p => ∀ q, s.seen = some q → p = q
    | _, _, _ => True
  next := EntryRecord.next

theorem EntryRecord.Admitted.answered {s : EntryRecord} {p : ProvisionState} {r : Request}
    {x : r.Answer}
    (h : s.Admitted p) (hr : Footprint.escalating.requests r)
    (hx : Discipline.entering.answers s r x) : (s.next (.request r x)).Admitted p := by
  cases r with
  | cursor =>
    cases x with
    | error f => exact h
    | ok q =>
      obtain rfl : q = p := hx p h.1
      exact ⟨rfl, h.2⟩
  | call k =>
    cases k with
    | platform k => simp [Footprint.escalating] at hr
    | _ => exact h
  | write c => exact hr.elim
  | _ => exact h

namespace ProvisionState

theorem next_ready {p n : ProvisionState} (h : p.next .ready = some n) : p = .unprovisioned :=
  (next_isSome_iff p .ready).mp (Option.isSome_of_eq_some h)

theorem eq_of_next_unprovisioned {n : ProvisionState} {event : ProvisionEvent}
    (h : unprovisioned.next event = some n) : event = .ready ∧ n = .inProgress := by
  revert h
  cases event <;> cases n <;> decide

theorem next_ne_unprovisioned {p n : ProvisionState} {event : ProvisionEvent}
    (h : p.next event = some n) : n ≠ .unprovisioned := by
  revert h
  cases p <;> cases event <;> cases n <;> decide

end ProvisionState

namespace Program

variable {s : EntryRecord} {p n : ProvisionState} {event : ProvisionEvent}

theorem obeys_only {σ : Type} {D : Discipline σ} {Q : σ → Except Fault Unit → Prop} {s : σ}
    {c : Prop} [Decidable c] {p : Program Unit} (hp : c → p.Obeys D Q s)
    (hn : ¬ c → Q s (.ok ())) : (only c p).Obeys D Q s := by
  unfold only
  split
  · rename_i hc
    exact hp hc
  · rename_i hc
    exact hn hc

theorem onEntry_entering (hnext : p.next event = some n) (hs : s.seen = some p) :
    (onEntry event n).Obeys .entering (fun s r => r = .ok () → s.Admitted p) s := by
  rw [onEntry_eq]
  apply obeys_bind (R := fun s r => r = .ok () →
    s.seen = some p ∧ (event = .ready → s.started = true))
  · apply obeys_only
    · intro he
      subst he
      obtain rfl := ProvisionState.next_ready hnext
      refine obeys_perform trivial fun t => ⟨⟨by simp [Change.key], fun _ => hs⟩, fun x _ => ?_⟩
      cases x with
      | error f => rintro ⟨⟩
      | ok u => exact fun _ => ⟨hs, fun _ => rfl⟩
    · exact fun he _ => ⟨hs, fun h => absurd h he⟩
  · intro s u hu
    obtain ⟨hs, hstarted⟩ := hu rfl
    apply obeys_bind (R := fun s r => r = .ok () →
      s.seen = some p ∧ (event = .ready → s.started = true) ∧ (n = .inProgress → s.enabled = true))
    · apply obeys_only
      · refine fun _ => ⟨trivial, fun x _ => ?_⟩
        cases x with
        | error f => rintro ⟨⟩
        | ok u => exact fun _ => ⟨hs, hstarted, fun _ => rfl⟩
      · exact fun hn _ => ⟨hs, hstarted, fun h => absurd h hn⟩
    · intro s u hu
      obtain ⟨hs, hstarted, henabled⟩ := hu rfl
      have hadmitted : s.Admitted p := by
        refine ⟨hs, ?_⟩
        rintro rfl
        obtain ⟨he, hn⟩ := ProvisionState.eq_of_next_unprovisioned hnext
        exact ⟨hstarted he, henabled hn⟩
      apply obeys_only
      · refine fun _ => ⟨trivial, fun x _ => ?_⟩
        cases x with
        | error f => rintro ⟨⟩
        | ok u => exact fun _ => hadmitted
      · exact fun _ _ => hadmitted
    · simp
  · simp

theorem advance_entering (s : EntryRecord) (event : ProvisionEvent) :
    (advance event).Obeys .entering (fun s r => ∀ p n, r = .ok (p, n) → s.Admitted n) s := by
  refine obeys_cursor trivial (by simp) fun p _ => ?_
  split
  · exact obeys_perform trivial fun _ => by simp [throw, Obeys]
  · rename_i n hnext
    refine obeys_write
      ⟨by simp [Discipline.entering, EntryRecord.next], by simp [Change.key]⟩ (by simp) ?_
    refine obeys_bind (onEntry_entering hnext rfl) (fun s u hu => ?_) (by simp)
    refine obeys_perform (.inr ⟨p, hu rfl⟩) fun _ => obeys_perform trivial fun _ => ?_
    rintro q r ⟨⟩
    exact ⟨rfl, fun hn => absurd hn (ProvisionState.next_ne_unprovisioned hnext)⟩

theorem Within.entering {α : Type} {q : Program α} (h : q.Within .escalating) (s : EntryRecord) :
    q.Obeys .entering (fun t _ => ∀ p, s.Admitted p → t.Admitted p) s := by
  induction q generalizing s with
  | done r => exact fun _ => id
  | act a next ih =>
    refine ⟨?_, fun x => (ih x (h.2 x) _).imp fun t _ ht p hp => ht p ?_⟩
    · cases a <;> first | trivial | exact h.1.elim
    · cases a <;> first | exact hp | exact h.1.elim
  | wait r next ih =>
    refine ⟨?_, fun x hx => (ih x (h.2 x trivial) _).imp fun t _ ht p hp => ht p ?_⟩
    · cases r <;> first | trivial | exact h.1.elim
    · exact hp.answered h.1 hx

theorem transition_entering (config : RecoveryConfig) (enforced : Option LockMode)
    (event : ProvisionEvent) (s : EntryRecord) :
    (transition config enforced event).Obeys .entering (fun _ _ => True) s := by
  refine obeys_attempt_bind (advance_entering s event) fun s r hr => ?_
  rcases r with e | ⟨p, n⟩
  · trivial
  · have hs : s.Admitted n := hr p n rfl
    refine obeys_attempt_bind ((enforce_within_escalating false).entering s) fun t r ht => ?_
    cases r with
    | ok mode => trivial
    | error e =>
      refine obeys_perform (.inr ⟨n, ht n hs⟩) fun _ => ?_
      refine obeys_attempt_bind ((critical_within config e.message).entering _) fun u r _ => ?_
      cases r <;> trivial

end Program

end DeviceLock
