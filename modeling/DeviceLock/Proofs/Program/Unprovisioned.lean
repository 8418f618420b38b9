import DeviceLock.JobQueue
import DeviceLock.Proofs.Program.Jobs

namespace DeviceLock

open Program

namespace DeviceRequest

variable {lenient : Bool} {pseudo : DeviceState} {r : DeviceRequest}

def Barred (lenient : Bool) (pseudo : DeviceState) (r : DeviceRequest) : Prop :=
  pseudo = .cleared ∧ ¬(lenient = true ∧ r = .clear)

instance : Decidable (r.Barred lenient pseudo) := inferInstanceAs (Decidable (_ ∧ _))

def ending (lenient : Bool) (pseudo : DeviceState) (r : DeviceRequest) :
    Ending Unit (Except Fault Reply) Fault :=
  if r.Barred lenient pseudo then .failed (.refused .deviceCleared)
  else .done () (.ok (.device r.target))

def moved (lenient : Bool) (pseudo : DeviceState) (r : DeviceRequest) : DeviceState :=
  if r.Barred lenient pseudo then pseudo else r.target

abbrev Outcome := DeviceRequest × Ending Unit (Except Fault Reply) Fault

def Outcome.accepted (x : Outcome) : Bool :=
  match x.2 with
  | .done _ (.ok _) => true
  | _ => false

def standing (pseudo : DeviceState) (es : List Outcome) : DeviceState :=
  ((es.filter Outcome.accepted).getLast?.map fun x => x.1.target).getD pseudo

def Decides (lenient : Bool) : DeviceState → List Outcome → DeviceState → Prop
  | pseudo, [], pseudo' => pseudo' = pseudo
  | pseudo, (r, e) :: es, pseudo' =>
    e = r.ending lenient pseudo ∧ Decides lenient (r.moved lenient pseudo) es pseudo'

structure Settles (lenient : Bool) (pseudo : DeviceState) (es : List Outcome)
    (pseudo' : DeviceState) : Prop where
  left : pseudo' = standing pseudo es
  refused : ∀ l r e l', es = l ++ (r, e) :: l' → r.Barred lenient (standing pseudo l) →
    e = .failed (.refused .deviceCleared)
  accepted : ∀ l r e l', es = l ++ (r, e) :: l' → ¬r.Barred lenient (standing pseudo l) →
    e = .done () (.ok (.device r.target))
  cleared : ∀ l l', es = l ++ l' → standing pseudo l = .cleared → pseudo' = .cleared

variable {pseudo₁ pseudo' : DeviceState} {e : Ending Unit (Except Fault Reply) Fault}
  {es es' : List Outcome}

theorem decides_append :
    Decides lenient pseudo (es ++ es') pseudo' ↔
      ∃ pseudo₁, Decides lenient pseudo es pseudo₁ ∧ Decides lenient pseudo₁ es' pseudo' := by
  induction es generalizing pseudo with
  | nil => simp [Decides]
  | cons x es ih =>
    obtain ⟨r, e⟩ := x
    simp only [List.cons_append, Decides, ih, and_assoc, exists_and_left]

theorem standing_cons (lenient : Bool) (pseudo : DeviceState) (r : DeviceRequest)
    (es : List Outcome) :
    standing pseudo ((r, r.ending lenient pseudo) :: es) =
      standing (r.moved lenient pseudo) es := by
  unfold standing ending moved
  split
  · rfl
  · rw [List.filter_cons_of_pos rfl, List.getLast?_cons]
    cases (es.filter Outcome.accepted).getLast? <;> rfl

theorem Decides.left (h : Decides lenient pseudo es pseudo') : pseudo' = standing pseudo es := by
  induction es generalizing pseudo with
  | nil => exact h
  | cons x es ih =>
    obtain ⟨r, e⟩ := x
    obtain ⟨rfl, h⟩ := h
    rw [standing_cons]
    exact ih h

theorem Decides.ended {l l' : List Outcome}
    (h : Decides lenient pseudo (l ++ (r, e) :: l') pseudo') :
    e = r.ending lenient (standing pseudo l) := by
  obtain ⟨pseudo₁, hl, he, -⟩ := decides_append.mp h
  rwa [hl.left] at he

theorem moved_cleared (lenient : Bool) (r : DeviceRequest) :
    r.moved lenient .cleared = .cleared := by
  cases lenient <;> cases r <;> rfl

theorem Decides.cleared (h : Decides lenient .cleared es pseudo') : pseudo' = .cleared := by
  induction es with
  | nil => exact h
  | cons x es ih =>
    obtain ⟨r, e⟩ := x
    obtain ⟨-, h⟩ := h
    rw [moved_cleared] at h
    exact ih h

theorem Decides.settles (h : Decides lenient pseudo es pseudo') :
    Settles lenient pseudo es pseudo' where
  left := h.left
  refused := by
    rintro l r e l' rfl hbarred
    exact h.ended.trans (if_pos hbarred)
  accepted := by
    rintro l r e l' rfl hbarred
    exact h.ended.trans (if_neg hbarred)
  cleared := by
    rintro l l' rfl hcleared
    obtain ⟨pseudo₁, hl, hl'⟩ := decides_append.mp h
    rw [hl.left, hcleared] at hl'
    exact hl'.cleared

theorem plan_unprovisioned (lenient : Bool) (pseudo : DeviceState) (r : DeviceRequest) :
    r.plan .unprovisioned pseudo lenient =
      if r.Barred lenient pseudo then .error .deviceCleared else .ok (.pseudo r.target) := by
  simp [plan, Barred]

end DeviceRequest

def Footprint.retaining : Footprint where
  acts
    | .setPseudo _ => False
    | _ => True
  requests _ := True

theorem Program.persist_retaining (r : DeviceRequest) (p : ProvisionState) (target : DeviceState) :
    (persist r p target).Within .retaining := by
  have hawait (j : Job) : (discard (await j)).Within .retaining :=
    within_discard (await_within trivial fun _ => trivial)
  exact within_bind (write_within trivial) fun _ => within_bind (hawait _) fun _ =>
    within_bind (only_within (hawait _)) fun _ => within_bind (only_within (hawait _)) fun _ =>
      within_pure _

end DeviceLock
