import DeviceLock.Activation.Scheduler

namespace DeviceLock

def SchedulerEvent.report? {ι : Type} : SchedulerEvent ι → Option (ActivationReport ι)
  | .published r => some r
  | .entering _ _ => none

namespace Scheduler

section

variable {ι : Type}

def reportsIn (log : List (SchedulerEvent ι)) : List (ActivationReport ι) :=
  log.filterMap SchedulerEvent.report?

def progress (r : ActivationReport ι) : ActivationStatus × Nat := (r.status, r.attempts)

def started : Nat → List (ActivationStatus × Nat)
  | 0 => [(.pending, 0)]
  | n + 1 => (.executing, n + 1) :: started n

inductive Ends (max n : Nat) : ActivationStatus × Nat → Prop
  | completed (h : 0 < n) : Ends max n (.completed, n)
  | failed (h : n = max) : Ends max n (.failed, max)
  | cancelled : Ends max n (.cancelled, 0)

/-- What a unit has published: `none` where it has ended, the number of its attempts otherwise. -/
def Told (max : Nat) : Option Nat → List (ActivationStatus × Nat) → Prop
  | some n, l => n ≤ max ∧ l = started n
  | none, l => ∃ n e, n ≤ max ∧ Ends max n e ∧ l = e :: started n

/-- A log and the units it is about, both newest first. The number counts the attempts of the
newest unit as long as that one has not ended. -/
inductive Chronicle (max : Nat) :
    List (ι × LockMode) → Option Nat → List (SchedulerEvent ι) → Prop
  | empty : Chronicle max [] none []
  | pending {units : List (ι × LockMode)} {log : List (SchedulerEvent ι)}
      {r : ActivationReport ι} (h : Chronicle max units none log)
      (hfresh : r.work ∉ units.map Prod.fst) (hr : progress r = (.pending, 0)) :
      Chronicle max ((r.work, r.mode) :: units) (some 0) (.published r :: log)
  | attempt {units : List (ι × LockMode)} {n : Nat} {log : List (SchedulerEvent ι)}
      {r : ActivationReport ι} (h : Chronicle max ((r.work, r.mode) :: units) (some n) log)
      (hn : n < max) (hr : progress r = (.executing, n + 1)) :
      Chronicle max ((r.work, r.mode) :: units) (some (n + 1))
        (.entering r.work r.mode :: .published r :: log)
  | ends {units : List (ι × LockMode)} {n : Nat} {log : List (SchedulerEvent ι)}
      {r : ActivationReport ι} (h : Chronicle max ((r.work, r.mode) :: units) (some n) log)
      (hr : Ends max n (progress r)) :
      Chronicle max ((r.work, r.mode) :: units) none (.published r :: log)

def endings (log : List (SchedulerEvent ι)) : List ActivationStatus :=
  ((reportsIn log).map (·.status)).filter (·.isTerminal)

@[simp]
theorem reportsIn_published (r : ActivationReport ι) (log : List (SchedulerEvent ι)) :
    reportsIn (.published r :: log) = r :: reportsIn log := rfl

@[simp]
theorem reportsIn_entering (u : ι) (mode : LockMode) (log : List (SchedulerEvent ι)) :
    reportsIn (.entering u mode :: log) = reportsIn log := rfl

theorem mem_reportsIn {r : ActivationReport ι} {log : List (SchedulerEvent ι)} :
    r ∈ reportsIn log ↔ .published r ∈ log := by
  induction log with
  | nil => simp [reportsIn]
  | cons e log ih => cases e <;> simp [ih]

theorem not_isTerminal_of_started {n : Nat} {p : ActivationStatus × Nat} (h : p ∈ started n) :
    p.1.isTerminal = false := by
  induction n with
  | zero =>
    rw [List.mem_singleton.mp h]
    rfl
  | succ n ih =>
    rcases List.mem_cons.mp h with rfl | h
    · rfl
    · exact ih h

theorem Ends.isTerminal {max n : Nat} {p : ActivationStatus × Nat} (h : Ends max n p) :
    p.1.isTerminal = true := by
  cases h <;> rfl

end

variable {ι : Type} [DecidableEq ι]

def told (log : List (SchedulerEvent ι)) (u : ι) : List (ActivationStatus × Nat) :=
  ((reportsIn log).filter (·.work = u)).map progress

theorem told_published (r : ActivationReport ι) (log : List (SchedulerEvent ι)) (u : ι) :
    told (.published r :: log) u = if r.work = u then progress r :: told log u else told log u := by
  by_cases hu : r.work = u <;> simp [told, hu]

@[simp]
theorem told_entering (v : ι) (mode : LockMode) (log : List (SchedulerEvent ι)) (u : ι) :
    told (.entering v mode :: log) u = told log u := rfl

namespace Chronicle

variable {max : Nat} {units : List (ι × LockMode)} {k : Option Nat} {log : List (SchedulerEvent ι)}

omit [DecidableEq ι] in
theorem nodup (h : Chronicle max units k log) : (units.map Prod.fst).Nodup := by
  induction h with
  | empty => exact .nil
  | pending _ hfresh _ ih => exact List.nodup_cons.mpr ⟨hfresh, ih⟩
  | attempt _ _ _ ih => exact ih
  | ends _ _ ih => exact ih

omit [DecidableEq ι] in
theorem unit_mem (h : Chronicle max units k log) {r : ActivationReport ι}
    (hr : r ∈ reportsIn log) : (r.work, r.mode) ∈ units := by
  induction h with
  | empty => cases hr
  | pending _ _ _ ih =>
    rcases List.mem_cons.mp hr with rfl | hr
    · exact List.mem_cons_self
    · exact List.mem_cons_of_mem _ (ih hr)
  | attempt _ _ _ ih | ends _ _ ih =>
    rcases List.mem_cons.mp hr with rfl | hr
    · exact List.mem_cons_self
    · exact ih hr

theorem told_eq_nil (h : Chronicle max units k log) {u : ι} (hu : u ∉ units.map Prod.fst) :
    told log u = [] := by
  rw [told, List.map_eq_nil_iff, List.filter_eq_nil_iff]
  intro r hr hw
  rw [decide_eq_true_eq] at hw
  subst hw
  exact hu (List.mem_map_of_mem (h.unit_mem hr))

theorem told (h : Chronicle max units k log) {u : ι} (hu : u ∈ units.map Prod.fst) :
    Told max (if (units.map Prod.fst).head? = some u then k else none) (told log u) := by
  induction h with
  | empty => cases hu
  | @pending units log r h hfresh hr ih =>
    rw [told_published]
    by_cases hw : r.work = u
    · subst hw
      simpa [hr, h.told_eq_nil hfresh] using ⟨Nat.zero_le max, rfl⟩
    · have hu : u ∈ units.map Prod.fst := by simpa [Ne.symm hw] using hu
      simpa [hw] using ih hu
  | @attempt units n log r h hn hr ih =>
    rw [told_entering, told_published]
    by_cases hw : r.work = u
    · subst hw
      obtain ⟨-, ht⟩ : Told max (some n) (Scheduler.told log r.work) := by simpa using ih hu
      simpa [hr, ht] using ⟨hn, rfl⟩
    · simpa [hw] using ih hu
  | @ends units n log r h hr ih =>
    rw [told_published]
    by_cases hw : r.work = u
    · subst hw
      obtain ⟨hn, ht⟩ : Told max (some n) (Scheduler.told log r.work) := by simpa using ih hu
      simpa [ht] using ⟨n, _, hn, hr, rfl⟩
    · simpa [hw] using ih hu

theorem ordered (h : Chronicle max units k log) :
    (reportsIn log).Pairwise fun later earlier =>
      (units.map Prod.fst).idxOf later.work ≤ (units.map Prod.fst).idxOf earlier.work := by
  induction h with
  | empty => exact .nil
  | @pending units log r h hfresh hr ih =>
    refine List.pairwise_cons.mpr ⟨fun r' _ => by simp, ?_⟩
    refine ih.imp_of_mem fun {later earlier} hl he hle => ?_
    have hne {r' : ActivationReport ι} (hr' : r' ∈ reportsIn log) : r.work ≠ r'.work := by
      intro hw
      exact hfresh (hw ▸ List.mem_map_of_mem (h.unit_mem hr'))
    simpa [List.idxOf_cons, beq_false_of_ne (hne hl), beq_false_of_ne (hne he)] using hle
  | attempt _ _ _ ih => exact List.pairwise_cons.mpr ⟨fun r' _ => by simp, ih⟩
  | ends _ _ ih => exact List.pairwise_cons.mpr ⟨fun r' _ => by simp, ih⟩

theorem entered_before (h : Chronicle max units k log) :
    log.Pairwise fun later earlier => ∀ r mode, earlier = .published r →
      r.status.isTerminal = true → later ≠ .entering r.work mode := by
  induction h with
  | empty => exact .nil
  | pending _ _ _ ih | ends _ _ ih =>
    exact List.pairwise_cons.mpr ⟨fun _ _ _ _ _ _ h => (nomatch h), ih⟩
  | @attempt units n log r h hn hr ih =>
    refine List.pairwise_cons.mpr ⟨?_, List.pairwise_cons.mpr ⟨?_, ih⟩⟩
    · rintro e he r' mode rfl ht hentering
      obtain ⟨hw, -⟩ := SchedulerEvent.entering.inj hentering
      rcases List.mem_cons.mp he with he | he
      · obtain rfl := SchedulerEvent.published.inj he
        rw [(Prod.mk.inj hr).1] at ht
        cases ht
      · obtain ⟨-, htold⟩ : Told max (some n) (Scheduler.told log r.work) := by
          simpa using h.told (u := r.work) List.mem_cons_self
        have hmem : progress r' ∈ Scheduler.told log r.work :=
          List.mem_map_of_mem (List.mem_filter.mpr ⟨mem_reportsIn.mpr he, by simp [hw]⟩)
        rw [htold] at hmem
        exact Bool.false_ne_true ((not_isTerminal_of_started hmem).symm.trans ht)
    · exact fun _ _ _ _ _ _ h => nomatch h

end Chronicle

end Scheduler

end DeviceLock
