import DeviceLock.Proofs.Program.Discipline
import DeviceLock.Proofs.Program.Joining

namespace DeviceLock

/-- The cursor moves so far, and what the job has read since the last of them. -/
inductive Sight
  | blind (moves : Nat)
  | placed (moves : Nat) (provision : ProvisionState)
  | seen (moves : Nat) (provision : ProvisionState) (device : DeviceState)
  | passed (moves : Nat) (provision : ProvisionState) (device : DeviceState)

namespace Sight

def moves : Sight → Nat
  | blind n | placed n _ | seen n _ _ | passed n _ _ => n

def Settled : Sight → Prop
  | seen _ _ _ => False
  | _ => True

def next : Sight → Deed → Sight
  | blind n, .request .cursor (.ok p) => placed n p
  | placed n p, .request .load (.ok doc) =>
    if PolicyStep.resolve p doc.device = .idle then passed n p doc.device
    else seen n p doc.device
  | seen n p d, .act (.issue _ _ _) _ => passed n p d
  | s, .act (.moveCursor _) _ => blind (s.moves + 1)
  | s, _ => s

end Sight

def LockMode.ofPass (critical : Bool) (p : ProvisionState) (d : DeviceState) : LockMode :=
  if critical then criticalError else resolve p d

def PolicyJob.isCritical (job : PolicyJob) (moves : Nat) : Bool :=
  match job with
  | .critical _ => true
  | _ => moves == 2

def Discipline.sighting (critical : Nat → Bool) : Discipline Sight where
  acts
    | .seen _ p d, a => a = .issue p d (.resolve p d)
    | _, .issue _ _ _ => False
    | s, .schedule mode => mode.isActive = true ∧
        ∃ n p d, s = .passed n p d ∧ mode = .ofPass (critical n) p d
    | _, _ => True
  requests
    | .seen _ _ _, _ => False
    | s, .cursor => ∃ n, s = .blind n
    | s, .load => ∃ n p, s = .placed n p
    | _, _ => True
  next := Sight.next

theorem Discipline.sighting_next (critical : Nat → Bool) :
    (Discipline.sighting critical).next = Sight.next := rfl

def Sight.Concludes (critical : Nat → Bool) (s : Sight)
    (r : Except Fault (Option LockMode × Except Fault Reply)) : Prop :=
  s.Settled ∧ ∀ v x, r = .ok (v, .ok x) → s = .blind 0 ∨
    ∃ n p d, s = .passed n p d ∧ v = some (.ofPass (critical n) p d) ∧
      ∀ mode, x = .mode mode → mode = .ofPass (critical n) p d

inductive Sight.Past (n : Nat) (p : ProvisionState) (d : DeviceState) : Sight → Prop
  | passed : Past n p d (.passed n p d)
  | blind {m : Nat} (h : n < m) : Past n p d (.blind m)
  | placed {m : Nat} (h : n < m) (q : ProvisionState) : Past n p d (.placed m q)

/-- From one reading of the device state up to the next: the one pass for the pair, before anything
else, and no mode but the one that the pass resolves to. -/
structure Sighted (critical : Bool) (p : ProvisionState) (d : DeviceState) (l : List Deed) :
    Prop where
  issued : ∃ i r, l = .act (.issue p d (.resolve p d)) i :: r ∧
    ∀ p' d' step j, .act (.issue p' d' step) j ∉ r
  scheduled : ∀ mode i, .act (.schedule mode) i ∈ l →
    mode.isActive = true ∧ mode = .ofPass critical p d

def Footprint.apart : Footprint where
  acts
    | .moveCursor _ | .issue _ _ _ | .schedule _ => False
    | _ => True
  requests
    | .cursor | .load => False
    | _ => True

namespace Sight

variable {critical : Nat → Bool} {n : Nat} {p : ProvisionState} {d : DeviceState} {s : Sight}
  {e : Deed} {k l : List Deed}

theorem next_moves (s : Sight) (e : Deed) :
    (s.next e).moves = s.moves + e.moved?.toList.length := by
  unfold next
  split
  · rfl
  · split <;> rfl
  · rfl
  · rfl
  · cases e with
    | act a x => cases a <;> simp_all [Deed.moved?]
    | request r x => rfl

theorem foldl_moves (s : Sight) (l : List Deed) :
    (l.foldl next s).moves = s.moves + (l.filterMap Deed.moved?).length := by
  induction l generalizing s with
  | nil => rfl
  | cons e l ih =>
    rw [List.foldl_cons, ih, next_moves, List.filterMap_cons]
    cases e.moved? with
    | none => rfl
    | some q => simp [Nat.add_assoc, Nat.add_comm]

theorem placed_of_load (h : (Discipline.sighting critical).requests s .load) :
    ∃ n p, s = .placed n p := by
  cases s with
  | seen n p d => exact h.elim
  | _ => exact h

theorem Past.step (h : s.Past n p d) (he : (Discipline.sighting critical).Admits s e)
    (hload : ∀ doc, e ≠ .request .load (.ok doc)) : (s.next e).Past n p d := by
  cases e with
  | act a x =>
    cases a with
    | moveCursor q =>
      cases h with
      | passed => exact .blind (Nat.lt_succ_self n)
      | blind h => exact .blind (Nat.lt_succ_of_lt h)
      | placed h q => exact .blind (Nat.lt_succ_of_lt h)
    | _ => cases h <;> constructor <;> assumption
  | request r x =>
    cases r with
    | cursor =>
      obtain ⟨m, rfl⟩ : ∃ m, s = .blind m := by cases h <;> exact he
      cases h with
      | blind h =>
        cases x with
        | error f => exact .blind h
        | ok q => exact .placed h q
    | load =>
      cases x with
      | error f => cases h <;> constructor <;> assumption
      | ok doc => exact absurd rfl (hload doc)
    | _ => cases h <;> constructor <;> assumption

theorem Past.admits (h : s.Past n p d) (he : (Discipline.sighting critical).Admits s e) :
    (∀ p' d' step i, e ≠ .act (.issue p' d' step) i) ∧ ∀ mode i, e = .act (.schedule mode) i →
      mode.isActive = true ∧ mode = .ofPass (critical n) p d := by
  refine ⟨?_, ?_⟩
  · rintro p' d' step i rfl
    cases h <;> exact he
  · rintro mode i rfl
    obtain ⟨hactive, n', p', d', rfl, hmode⟩ : mode.isActive = true ∧
        ∃ n p d, s = .passed n p d ∧ mode = .ofPass (critical n) p d := by
      cases h <;> exact he
    cases h
    exact ⟨hactive, hmode⟩

theorem Past.along (h : s.Past n p d)
    (hl : (Discipline.sighting critical).Along (Discipline.sighting critical).Admits s l)
    (hload : ∀ doc, .request .load (.ok doc) ∉ l) :
    (l.foldl next s).Past n p d ∧ (∀ p' d' step i, .act (.issue p' d' step) i ∉ l) ∧
      ∀ mode i, .act (.schedule mode) i ∈ l →
        mode.isActive = true ∧ mode = .ofPass (critical n) p d := by
  induction l generalizing s with
  | nil => exact ⟨h, by simp, by simp⟩
  | cons e l ih =>
    obtain ⟨he, hl⟩ := hl
    obtain ⟨hissue, hschedule⟩ := h.admits he
    obtain ⟨hpast, hissues, hschedules⟩ :=
      ih (h.step he fun doc hd => hload doc (hd ▸ List.mem_cons_self)) hl
        fun doc hd => hload doc (List.mem_cons_of_mem _ hd)
    refine ⟨hpast, fun p' d' step i hmem => ?_, fun mode i hmem => ?_⟩
    · rcases List.mem_cons.mp hmem with hmem | hmem
      · exact hissue p' d' step i hmem.symm
      · exact hissues p' d' step i hmem
    · rcases List.mem_cons.mp hmem with hmem | hmem
      · exact hschedule mode i hmem.symm
      · exact hschedules mode i hmem

theorem Past.concludes {v : Option LockMode} {x : Reply} (h : s.Past n p d)
    (hs : s.Concludes critical (.ok (v, .ok x))) :
    v = some (.ofPass (critical n) p d) ∧
      ∀ mode, x = .mode mode → mode = .ofPass (critical n) p d := by
  rcases hs.2 v x rfl with rfl | ⟨n', p', d', rfl, hv, hmode⟩
  · cases h with
    | blind h => exact absurd h (Nat.not_lt_zero n)
  · cases h
    exact ⟨hv, hmode⟩

theorem sighted_of_seen
    (hl : (Discipline.sighting critical).Along (Discipline.sighting critical).Admits
      (.seen n p d) l)
    (hne : l ≠ []) (hload : ∀ doc, .request .load (.ok doc) ∉ l) :
    Sighted (critical n) p d l ∧ (l.foldl next (.seen n p d)).Past n p d := by
  cases l with
  | nil => exact absurd rfl hne
  | cons e l =>
    obtain ⟨he, hl⟩ := hl
    cases e with
    | request r x => exact he.elim
    | act a i =>
      obtain rfl : a = .issue p d (.resolve p d) := he
      obtain ⟨hpast, hissues, hschedules⟩ := Past.along .passed hl fun doc hd =>
        hload doc (List.mem_cons_of_mem _ hd)
      refine ⟨⟨⟨i, l, rfl, hissues⟩, fun mode j hmem => ?_⟩, hpast⟩
      rcases List.mem_cons.mp hmem with hmem | hmem
      · cases hmem
      · exact hschedules mode j hmem

end Sight

namespace Program

variable {α β : Type} {critical : Nat → Bool} {s : Sight} {n : Nat}

theorem obeys_of_apart {p : Program α} {P : Except Fault α → Prop} (h : p.Meets .apart P)
    (hs : s.Settled) : p.Obeys (.sighting critical) (fun s' r => s' = s ∧ P r) s := by
  apply h.obeys
  · intro a ha
    cases s with
    | seen n p d => exact hs.elim
    | _ => cases a <;> first | exact ha.elim | exact ⟨trivial, fun _ => rfl⟩
  · intro r hr
    cases s with
    | seen n p d => exact hs.elim
    | _ => cases r <;> first | exact hr.elim | exact ⟨trivial, fun _ _ => ⟨trivial, rfl⟩⟩

theorem conclude_sighting {p : ProvisionState} {d : DeviceState} (r : Except Fault PolicyStep) :
    (conclude (.ofPass (critical n) p d) r).Obeys (.sighting critical)
      (fun s r => s = .passed n p d ∧ ∀ mode, r = .ok mode → mode = .ofPass (critical n) p d)
      (.passed n p d) := by
  have hpresent (mode : LockMode) (hmode : mode = .ofPass (critical n) p d) :
      (present mode).Obeys (.sighting critical) (fun s _ => s = .passed n p d)
        (.passed n p d) := by
    unfold present
    split
    · rename_i hactive
      refine obeys_request trivial fun b _ => ?_
      cases b with
      | true => exact ⟨⟨hactive, n, p, d, rfl, hmode⟩, fun _ => rfl⟩
      | false => exact rfl
    · exact ⟨trivial, fun _ => ⟨trivial, fun _ _ => rfl⟩⟩
  cases r with
  | error e => exact obeys_perform trivial fun _ => ⟨rfl, by rintro mode ⟨⟩⟩
  | ok step =>
    refine obeys_perform trivial fun _ => obeys_bind (hpresent _ rfl) ?_ ?_
    · rintro _ - rfl
      exact ⟨rfl, fun mode h => (Except.ok.inj h).symm⟩
    · rintro _ e rfl
      exact ⟨rfl, by rintro mode ⟨⟩⟩

theorem pass_sighting (p : ProvisionState) (d : DeviceState) :
    (pass p d).Obeys (.sighting critical) (fun s _ => s = .passed n p d)
      (if PolicyStep.resolve p d = .idle then .passed n p d else .seen n p d) := by
  unfold pass
  dsimp only
  split
  · exact rfl
  · exact ⟨rfl, fun _ => ⟨trivial, fun _ _ => rfl⟩⟩

def Enforced (c : Bool) (n : Nat) (s : Sight) (r : Except Fault LockMode) : Prop :=
  s.moves = n ∧ s.Settled ∧
    ∀ mode, r = .ok mode → ∃ p d, s = .passed n p d ∧ mode = .ofPass c p d

theorem enforced_of_error {c : Bool} {f : Fault} (hn : s.moves = n) (hs : s.Settled) :
    Enforced c n s (.error f) :=
  ⟨hn, hs, by rintro mode ⟨⟩⟩

theorem enforce_sighting {c : Bool} (hc : critical n = c) :
    (enforce c).Obeys (.sighting critical) (Enforced c n) (.blind n) := by
  subst hc
  rw [enforce_eq]
  refine obeys_cursor ⟨n, rfl⟩ (fun _ => enforced_of_error rfl trivial) fun p _ => ?_
  refine obeys_load ⟨n, p, rfl⟩ (fun _ => enforced_of_error rfl trivial) fun doc _ => ?_
  refine obeys_attempt_bind (pass_sighting p doc.device) ?_
  rintro _ r rfl
  refine (conclude_sighting r).imp ?_
  rintro _ r ⟨rfl, hmode⟩
  exact ⟨rfl, trivial, fun mode h => ⟨p, doc.device, rfl, hmode mode h⟩⟩

theorem reported_apart (cause : String) (mode : LockMode) : (do
    recovery (.reset cause)
    recovery (.reportCritical cause)
    return mode : Program LockMode).Meets .apart fun r => ∀ m, r = .ok m → m = mode := by
  refine ⟨trivial, fun x _ => ?_⟩
  cases x with
  | error e => rintro m ⟨⟩
  | ok u =>
    refine ⟨trivial, fun x _ => ?_⟩
    cases x with
    | error e => rintro m ⟨⟩
    | ok u => exact fun m h => (Except.ok.inj h).symm

theorem critical_sighting (config : RecoveryConfig) (cause : String) (hc : critical n = true) :
    (Program.critical config cause).Obeys (.sighting critical) (Enforced true n) (.blind n) := by
  have hforce : (forceCritical cause).Obeys (.sighting critical) (Enforced true n) (.blind n) := by
    refine obeys_bind (enforce_sighting hc) ?_ fun s e h => enforced_of_error h.1 h.2.1
    rintro s mode ⟨hn, hs, hmode⟩
    refine (obeys_of_apart (reported_apart cause mode) hs).imp ?_
    rintro _ r ⟨rfl, hr⟩
    refine ⟨hn, hs, fun m hm => ?_⟩
    rw [hr m hm]
    exact hmode mode rfl
  refine obeys_attempt_bind hforce ?_
  rintro s r ⟨hn, hs, hmode⟩
  cases r with
  | ok mode => exact ⟨hn, hs, hmode⟩
  | error e =>
    have hgive : (giveUp config cause e).Within .apart :=
      within_bind (within_perform trivial) fun _ =>
        within_bind (within_discard (within_request trivial)) fun _ =>
          within_bind (within_discard (within_request trivial)) fun _ => within_pure _
    refine obeys_bind (obeys_of_apart hgive hs) ?_ ?_
    · rintro _ f ⟨rfl, -⟩
      exact enforced_of_error hn hs
    · rintro _ f ⟨rfl, -⟩
      exact enforced_of_error hn hs

theorem advance_sighting (event : ProvisionEvent) :
    (advance event).Obeys (.sighting critical)
      (fun s r => s.Settled ∧ ∀ x, r = .ok x → s = .blind 1) (.blind 0) := by
  refine obeys_cursor ⟨0, rfl⟩ (fun _ => ⟨trivial, by rintro x ⟨⟩⟩) fun p _ => ?_
  cases p.next event with
  | none => exact obeys_perform trivial fun _ => ⟨trivial, by rintro x ⟨⟩⟩
  | some next =>
    refine obeys_write trivial (fun _ => ⟨trivial, by rintro x ⟨⟩⟩) ?_
    have hentry : (onEntry event next).Within .apart := by
      apply (onEntry_within event next).mono
      · rintro _ rfl
        trivial
      · intro r hr
        cases r <;> first | exact hr.elim | trivial
      · exact fun _ _ _ => trivial
    refine obeys_bind (obeys_of_apart (s := .placed 0 p) hentry trivial) ?_ ?_
    · rintro _ u ⟨rfl, -⟩
      exact obeys_perform trivial fun _ => obeys_perform trivial fun _ =>
        ⟨trivial, fun _ _ => rfl⟩
    · rintro _ e ⟨rfl, -⟩
      exact ⟨trivial, by rintro x ⟨⟩⟩

theorem transition_sighting (config : RecoveryConfig) (enforced : Option LockMode)
    (event : ProvisionEvent) (h₁ : critical 1 = false) (h₂ : critical 2 = true) :
    (transition config enforced event).Obeys (.sighting critical)
      (fun s r => s.Settled ∧ ∀ v x, r = .ok (v, .ok x) →
        ∃ p d, s = .passed 1 p d ∧ v = some (.ofPass false p d)) (.blind 0) := by
  refine obeys_attempt_bind (advance_sighting event) ?_
  rintro s r ⟨hs, hok⟩
  rcases r with e | ⟨p, next⟩
  · exact ⟨hs, by rintro v x ⟨⟩⟩
  obtain rfl := hok _ rfl
  refine obeys_attempt_bind (enforce_sighting h₁) ?_
  rintro s r ⟨hn, hs, hmode⟩
  cases r with
  | ok mode =>
    obtain ⟨p, d, rfl, rfl⟩ := hmode mode rfl
    refine ⟨trivial, ?_⟩
    rintro v x ⟨⟩
    exact ⟨p, d, rfl, rfl⟩
  | error e =>
    have hmoved : Sight.next s (.act (.moveCursor p) ()) = .blind 2 := by
      cases s with
      | seen n q d => exact hs.elim
      | _ => exact congrArg (fun n => Sight.blind (n + 1)) hn
    refine obeys_perform (by cases s <;> first | exact hs.elim | trivial) fun _ => ?_
    refine obeys_attempt_bind (hmoved ▸ critical_sighting config e.message h₂) ?_
    rintro s r ⟨-, hs, -⟩
    cases r with
    | ok mode => exact ⟨hs, by rintro v x ⟨⟩⟩
    | error f => exact ⟨hs, by rintro v x ⟨⟩⟩

end Program

open Program

theorem PolicyJob.program_sighting (config : EngineConfig) (enforced : Option LockMode)
    (job : PolicyJob) :
    (job.program config enforced).Obeys (.sighting job.isCritical)
      (Sight.Concludes job.isCritical) (.blind 0) := by
  have hrecorded {p : Program LockMode} {c : Bool} (hc : job.isCritical 0 = c)
      (hp : p.Obeys (.sighting job.isCritical) (Enforced c 0) (.blind 0)) :
      (p >>= recorded).Obeys (.sighting job.isCritical) (Sight.Concludes job.isCritical)
        (.blind 0) := by
    subst hc
    refine obeys_bind hp ?_ fun s e h => ⟨h.2.1, by rintro v x ⟨⟩⟩
    rintro s mode ⟨hn, hs, hmode⟩
    refine ⟨hs, ?_⟩
    rintro v x ⟨⟩
    obtain ⟨p, d, rfl, rfl⟩ := hmode mode rfl
    exact .inr ⟨0, p, d, rfl, rfl, fun m hm => (Reply.mode.inj hm).symm⟩
  cases job with
  | enforce => exact hrecorded rfl (enforce_sighting rfl)
  | critical cause => exact hrecorded rfl (critical_sighting _ cause rfl)
  | mode =>
    cases enforced with
    | some m => exact ⟨trivial, fun _ _ _ => .inl rfl⟩
    | none => exact hrecorded rfl (enforce_sighting rfl)
  | invalidate => exact ⟨trivial, fun _ _ _ => .inl rfl⟩
  | transition event =>
    refine obeys_bind (transition_sighting config.recovery enforced event rfl rfl) ?_ ?_
    · rintro s ⟨v, r⟩ ⟨hs, hv⟩
      refine ⟨hs, fun w x h => ?_⟩
      obtain ⟨rfl, hr⟩ := Prod.mk.inj (Except.ok.inj h)
      cases r with
      | error e => cases hr
      | ok state =>
        obtain rfl := Except.ok.inj hr
        obtain ⟨p, d, rfl, rfl⟩ := hv _ _ rfl
        exact .inr ⟨1, p, d, rfl, rfl, by rintro mode ⟨⟩⟩
    · rintro s e ⟨hs, -⟩
      exact ⟨hs, by rintro v x ⟨⟩⟩

theorem PolicyJob.sighted {config : EngineConfig} {enforced : Option LockMode} {job : PolicyJob}
    {k l : List Deed} {doc : Document} {q : Program (Option LockMode × Except Fault Reply)}
    {c : Bool} (hw : Walk (job.program config enforced) (k ++ .request .load (.ok doc) :: l) q)
    (hc : job.isCritical (k.filterMap Deed.moved?).length = c)
    (hidle : ∀ p, PolicyStep.resolve p doc.device ≠ .idle)
    (hload : ∀ doc, .request .load (.ok doc) ∉ l) (hq : ∀ a next, q ≠ .act a next) :
    ∃ p, Sighted c p doc.device l ∧ ∀ v x, q = done (.ok (v, .ok x)) →
      v = some (.ofPass c p doc.device) ∧
        ∀ mode, x = .mode mode → mode = .ofPass c p doc.device := by
  subst hc
  obtain ⟨hall, hq'⟩ := (job.program_sighting config enforced).walk hw
    (Discipline.along_of_forall fun s d _ => by cases d <;> trivial)
  obtain ⟨-, hread, hl⟩ := Discipline.along_append.mp hall
  rw [List.foldl_append, List.foldl_cons] at hq'
  simp only [Discipline.sighting_next] at hread hl hq'
  obtain ⟨n, p, hk⟩ := Sight.placed_of_load hread
  have hn : (k.filterMap Deed.moved?).length = n := by
    have := Sight.foldl_moves (.blind 0) k
    rw [hk] at this
    simpa [Sight.moves] using this.symm
  have hseen : Sight.next (.placed n p) (.request .load (.ok doc)) = .seen n p doc.device :=
    if_neg (hidle p)
  rw [hk, hseen] at hl hq'
  rw [hn]
  have hne : l ≠ [] := by
    rintro rfl
    cases q with
    | done r => exact hq'.1
    | act a next => exact absurd rfl (hq a next)
    | wait r next => exact hq'.1
  obtain ⟨hsighted, hpast⟩ := Sight.sighted_of_seen hl hne hload
  refine ⟨p, hsighted, ?_⟩
  rintro v x rfl
  exact hpast.concludes hq'

end DeviceLock
