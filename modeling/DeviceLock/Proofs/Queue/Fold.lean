import DeviceLock.Proofs.Engine.Order

/-!
A queue with one worker refines a fold over its jobs. `JobQueue.Run` are the runs of the queue, with
callers that submit and await at any time and jobs that behave in any way; `JobQueue.Folded` says
what the fold makes of them.
-/

namespace DeviceLock

inductive Stop (σ κ ρ ε : Type)
  | suspended (rest : κ)
  | ended (e : Ending σ ρ ε)

structure JobBehaviour (σ ι κ ρ ε : Type) where
  begins : ι → σ → List ι → Stop σ κ ρ ε → Prop
  goesOn : κ → σ → List ι → Stop σ κ ρ ε → Prop

inductive JobBehaviour.Comes {σ ι κ ρ ε : Type} (B : JobBehaviour σ ι κ ρ ε) (j : ι) (v : σ) :
    Stop σ κ ρ ε → Prop
  | first {more : List ι} {s : Stop σ κ ρ ε} (h : B.begins j v more s) : Comes B j v s
  | later {k : κ} {more : List ι} {s : Stop σ κ ρ ε} (h : Comes B j v (.suspended k))
      (hk : B.goesOn k v more s) : Comes B j v s

inductive QueueEvent (σ ι ρ ε : Type)
  | submitted (ticket : Nat) (job : ι)
  | started (ticket : Nat) (value : σ)
  | ended (ticket : Nat) (e : Ending σ ρ ε)
  | resolved (ticket : Nat) (answer : JobAnswer ρ ε)

namespace QueueEvent

variable {σ ι ρ ε : Type}

def submission? : QueueEvent σ ι ρ ε → Option (ι × Nat)
  | submitted t j => some (j, t)
  | started _ _ | ended _ _ | resolved _ _ => none

def start? : QueueEvent σ ι ρ ε → Option Nat
  | started t _ => some t
  | submitted _ _ | ended _ _ | resolved _ _ => none

def isTurn : QueueEvent σ ι ρ ε → Bool
  | started _ _ | ended _ _ => true
  | submitted _ _ | resolved _ _ => false

theorem start?_of_turns (l : List (QueueEvent σ ι ρ ε)) :
    (l.filter isTurn).filterMap start? = l.filterMap start? := by
  rw [List.filterMap_filter]
  congr 1
  funext e
  cases e <;> rfl

def submissions (n : Nat) (jobs : List ι) : List (QueueEvent σ ι ρ ε) :=
  (jobs.zipIdx n).map fun x => submitted x.2 x.1

@[simp]
theorem submission?_submissions (n : Nat) (jobs : List ι) :
    (submissions n jobs : List (QueueEvent σ ι ρ ε)).filterMap submission? = jobs.zipIdx n := by
  simp [submissions, List.filterMap_map, Function.comp_def, submission?]

@[simp]
theorem turns_submissions (n : Nat) (jobs : List ι) :
    (submissions n jobs : List (QueueEvent σ ι ρ ε)).filter isTurn = [] := by
  simp only [submissions, List.filter_map, List.map_eq_nil_iff]
  exact List.filter_eq_nil_iff.mpr fun _ _ => Bool.false_ne_true

@[simp]
theorem resolved_submissions (n : Nat) (jobs : List ι) (t : Nat) (a : JobAnswer ρ ε) :
    resolved t a ∉ (submissions n jobs : List (QueueEvent σ ι ρ ε)) := by
  simp [submissions]

end QueueEvent

namespace Ending

variable {σ ι ρ ε : Type}

def fold (v : σ) (es : List (Ending σ ρ ε)) : σ := es.foldl (fun v e => e.value v) v

def turns : σ → Nat → List (Ending σ ρ ε) → List (QueueEvent σ ι ρ ε)
  | _, _, [] => []
  | v, n, e :: es => .started n v :: .ended n e :: turns (e.value v) (n + 1) es

theorem fold_concat (v : σ) (es : List (Ending σ ρ ε)) (e : Ending σ ρ ε) :
    fold v (es ++ [e]) = e.value (fold v es) := by
  simp only [fold, List.foldl_append, List.foldl_cons, List.foldl_nil]

theorem turns_concat (v : σ) (n : Nat) (es : List (Ending σ ρ ε)) (e : Ending σ ρ ε) :
    (turns v n (es ++ [e]) : List (QueueEvent σ ι ρ ε)) =
      turns v n es ++ [.started (n + es.length) (fold v es), .ended (n + es.length) e] := by
  induction es generalizing v n with
  | nil => simp [turns, fold]
  | cons d es ih =>
    simp only [List.cons_append, turns, ih, fold, List.foldl_cons, List.length_cons]
    rw [Nat.add_assoc, Nat.add_comm 1]

theorem start?_turns (v : σ) (n : Nat) (es : List (Ending σ ρ ε)) :
    (turns v n es : List (QueueEvent σ ι ρ ε)).filterMap QueueEvent.start? =
      List.range' n es.length := by
  induction es generalizing v n with
  | nil => rfl
  | cons e es ih =>
    simp only [turns, List.filterMap_cons, QueueEvent.start?, ih, List.length_cons]
    rfl

theorem answer_ne_closed (e : Ending σ ρ ε) : e.answer ≠ .closed := by
  cases e <;> simp [answer]

end Ending

namespace JobQueue

variable {σ ι κ ρ ε : Type} {B : JobBehaviour σ ι κ ρ ε} {v : σ} {q q' : JobQueue σ ι κ ρ ε}
  {l : List (QueueEvent σ ι ρ ε)} {j : ι} {t : Nat} {a : JobAnswer ρ ε}

def halt (q : JobQueue σ ι κ ρ ε) : Stop σ κ ρ ε → JobQueue σ ι κ ρ ε
  | .suspended rest => q.run rest
  | .ended e => q.finish e

def seen (q : JobQueue σ ι κ ρ ε) (more : List ι) (s : Stop σ κ ρ ε) :
    List (QueueEvent σ ι ρ ε) :=
  QueueEvent.submissions q.submitted.length more ++
    match s with
    | .suspended _ => []
    | .ended e => [.ended q.ended.length e]

/-- Runs of the queue with what is seen of them. Nothing is asked of an answer that nobody waits
for. -/
inductive Run (B : JobBehaviour σ ι κ ρ ε) (v : σ) :
    List (QueueEvent σ ι ρ ε) → JobQueue σ ι κ ρ ε → Prop
  | create : Run B v [] { value := v }
  | submit {l : List (QueueEvent σ ι ρ ε)} {q : JobQueue σ ι κ ρ ε} (h : Run B v l q) (j : ι) :
      Run B v (l ++ [.submitted (q.submit j).2 j]) (q.submit j).1
  | start {l : List (QueueEvent σ ι ρ ε)} {q : JobQueue σ ι κ ρ ε} {j : ι} {more : List ι}
      {s : Stop σ κ ρ ε} (h : Run B v l q) (hj : q.next? = some j)
      (hs : B.begins j q.value more s) :
      Run B v (l ++ .started q.ended.length q.value :: q.seen more s) ((q.add more).halt s)
  | goOn {l : List (QueueEvent σ ι ρ ε)} {q : JobQueue σ ι κ ρ ε} {k : κ} {more : List ι}
      {s : Stop σ κ ρ ε} (h : Run B v l q) (hk : q.running = some k)
      (hs : B.goesOn k q.value more s) : Run B v (l ++ q.seen more s) ((q.add more).halt s)
  | resolve {l : List (QueueEvent σ ι ρ ε)} {q : JobQueue σ ι κ ρ ε} {t : Nat}
      {a : JobAnswer ρ ε} (h : Run B v l q) (ht : t < q.submitted.length)
      (ha : q.answer? t = some a) : Run B v (l ++ [.resolved t a]) q
  | close {l : List (QueueEvent σ ι ρ ε)} {q : JobQueue σ ι κ ρ ε} (h : Run B v l q) :
      Run B v l q.close

structure Accounts (B : JobBehaviour σ ι κ ρ ε) (v : σ) (l : List (QueueEvent σ ι ρ ε))
    (q : JobQueue σ ι κ ρ ε) : Prop where
  value : q.value = Ending.fold v q.ended
  submitted : l.filterMap QueueEvent.submission? = q.submitted.zipIdx
  ended : ∀ (t : Nat) e, q.ended[t]? = some e → ∃ j, q.submitted[t]? = some j ∧
    B.Comes j (Ending.fold v (q.ended.take t)) (.ended e)
  resolved : ∀ t a, .resolved t a ∈ l → q.answer? t = some a

structure Turning (B : JobBehaviour σ ι κ ρ ε) (v : σ) (l : List (QueueEvent σ ι ρ ε))
    (q : JobQueue σ ι κ ρ ε) (j : ι) : Prop extends Accounts B v l q where
  live : q.closed = false
  job : q.submitted[q.ended.length]? = some j
  turns : l.filter QueueEvent.isTurn =
    Ending.turns v 0 q.ended ++ [.started q.ended.length q.value]

/-- The jobs of a queue are taken one after another. The last that has started may not have ended,
if it runs or if the worker has gone away from it. -/
structure Folded (B : JobBehaviour σ ι κ ρ ε) (v : σ) (l : List (QueueEvent σ ι ρ ε))
    (q : JobQueue σ ι κ ρ ε) : Prop extends Accounts B v l q where
  turns : l.filter QueueEvent.isTurn = Ending.turns v 0 q.ended ∧ q.running = none ∨
    l.filter QueueEvent.isTurn = Ending.turns v 0 q.ended ++ [.started q.ended.length q.value] ∧
      q.ended.length < q.submitted.length ∧ (q.running = none → q.closed = true)
  running : ∀ k, q.running = some k → q.closed = false ∧
    ∃ j, q.submitted[q.ended.length]? = some j ∧ B.Comes j q.value (.suspended k)

theorem answer?_eq_some (q : JobQueue σ ι κ ρ ε) (t : Nat) (a : JobAnswer ρ ε) :
    q.answer? t = some a ↔
      (∃ e, q.ended[t]? = some e ∧ a = e.answer) ∨
        a = .closed ∧ q.closed = true ∧ q.ended.length ≤ t := by
  unfold answer?
  cases he : q.ended[t]? with
  | some e =>
    have hlt := (List.getElem?_eq_some_iff.mp he).1
    simp only [Option.some.injEq, exists_eq_left', eq_comm (a := a)]
    exact ⟨.inl, fun h => h.elim id fun h => absurd h.2.2 (Nat.not_le.mpr hlt)⟩
  | none =>
    have hle := List.getElem?_eq_none_iff.mp he
    cases q.closed <;> simp [hle, eq_comm]

theorem answer?_eq_none (q : JobQueue σ ι κ ρ ε) (t : Nat) :
    q.answer? t = none ↔ q.closed = false ∧ q.ended.length ≤ t := by
  unfold answer?
  cases he : q.ended[t]? with
  | some e =>
    have hlt := (List.getElem?_eq_some_iff.mp he).1
    simp only [reduceCtorEq, false_iff, not_and, Nat.not_le]
    exact fun _ => hlt
  | none =>
    have hle := List.getElem?_eq_none_iff.mp he
    cases q.closed <;> simp [hle]

theorem answer?_keeps (he : q.ended <+: q'.ended) (hc : q.closed = true → q'.closed = true)
    (hn : q.closed = true → q'.ended = q.ended) (h : q.answer? t = some a) :
    q'.answer? t = some a := by
  rw [answer?_eq_some] at h ⊢
  rcases h with ⟨e, h, rfl⟩ | ⟨rfl, hclosed, hle⟩
  · exact .inl ⟨e, getElem?_of_grows he h, rfl⟩
  · refine .inr ⟨rfl, hc hclosed, ?_⟩
    rwa [hn hclosed]

theorem next_of_waiting (hc : q.closed = false) (hr : q.running = none)
    (h : q.ended.length < q.submitted.length) : ∃ j, q.next? = some j := by
  refine ⟨q.submitted[q.ended.length], ?_⟩
  rw [next?, if_neg (by simp [hc, hr]), List.getElem?_eq_getElem h]

theorem closed_of_next (h : q.next? = some j) : q.closed = false ∧ q.running = none := by
  unfold next? at h
  split at h
  · cases h
  · rename_i hn
    rw [not_or, Bool.not_eq_true, Option.not_isSome_iff_eq_none] at hn
    exact hn

namespace Accounts

theorem le (h : Accounts B v l q) : q.ended.length ≤ q.submitted.length := by
  refine Nat.le_of_not_lt fun hlt => ?_
  obtain ⟨j, hj, -⟩ := h.ended _ _ (List.getElem?_eq_getElem hlt)
  exact absurd (List.getElem?_eq_some_iff.mp hj).1 (Nat.lt_irrefl _)

theorem add (h : Accounts B v l q) (more : List ι) :
    Accounts B v (l ++ QueueEvent.submissions q.submitted.length more) (q.add more) where
  value := h.value
  submitted := by
    rw [List.filterMap_append, h.submitted, QueueEvent.submission?_submissions, JobQueue.add,
      List.zipIdx_append, Nat.zero_add]
  ended := fun t e he => by
    obtain ⟨j, hj, hcomes⟩ := h.ended t e he
    exact ⟨j, getElem?_of_grows (List.prefix_append _ _) hj, hcomes⟩
  resolved := fun t a hmem => by
    rcases List.mem_append.mp hmem with hmem | hmem
    · exact h.resolved t a hmem
    · exact absurd hmem (QueueEvent.resolved_submissions _ _ _ _)

theorem silent (h : Accounts B v l q) {e : QueueEvent σ ι ρ ε} (hs : e.submission? = none)
    (hr : ∀ t a, e = .resolved t a → q.answer? t = some a) : Accounts B v (l ++ [e]) q where
  value := h.value
  submitted := by
    rw [List.filterMap_append, h.submitted, List.filterMap_cons_none hs, List.filterMap_nil,
      List.append_nil]
  ended := h.ended
  resolved := fun t a hmem => by
    rcases List.mem_append.mp hmem with hmem | hmem
    · exact h.resolved t a hmem
    · exact hr t a (List.mem_singleton.mp hmem).symm

theorem run (h : Accounts B v l q) (k : κ) : Accounts B v l (q.run k) :=
  ⟨h.value, h.submitted, h.ended, h.resolved⟩

theorem close (h : Accounts B v l q) : Accounts B v l q.close where
  value := h.value
  submitted := h.submitted
  ended := h.ended
  resolved := fun t a hmem =>
    answer?_keeps (q := q) List.prefix_rfl (fun _ => rfl) (fun _ => rfl) (h.resolved t a hmem)

theorem finish (h : Accounts B v l q) (hlive : q.closed = false)
    (hj : q.submitted[q.ended.length]? = some j) {e : Ending σ ρ ε}
    (he : B.Comes j q.value (.ended e)) : Accounts B v l (q.finish e) where
  value := by rw [finish_value, h.value, JobQueue.finish, Ending.fold_concat]
  submitted := h.submitted
  ended := fun t x hx => by
    change (q.ended ++ [e])[t]? = some x at hx
    rw [List.getElem?_append] at hx
    split at hx
    · rename_i hlt
      obtain ⟨i, hi, hcomes⟩ := h.ended t x hx
      refine ⟨i, hi, ?_⟩
      rwa [JobQueue.finish, List.take_append_of_le_length (Nat.le_of_lt hlt)]
    · rename_i hge
      rw [List.getElem?_singleton] at hx
      split at hx
      · rename_i hzero
        obtain rfl : t = q.ended.length := by omega
        obtain rfl := Option.some.inj hx
        refine ⟨j, hj, ?_⟩
        rwa [JobQueue.finish, List.take_append_of_le_length (Nat.le_refl _), List.take_length,
          ← h.value]
      · cases hx
  resolved := fun t a hmem =>
    answer?_keeps (List.prefix_append _ _) id (fun hc => by simp [hlive] at hc)
      (h.resolved t a hmem)

end Accounts

theorem Folded.turning_of_next (h : Folded B v l q) (hj : q.next? = some j) :
    Turning B v (l ++ [.started q.ended.length q.value]) q j where
  toAccounts := h.toAccounts.silent rfl fun _ _ he => by cases he
  live := (closed_of_next hj).1
  job := (lt_of_next hj).1
  turns := by
    obtain ⟨hlive, hidle⟩ := closed_of_next hj
    rcases h.turns with ⟨hl, -⟩ | ⟨-, -, hgone⟩
    · rw [List.filter_append, hl]
      rfl
    · rw [hgone hidle] at hlive
      cases hlive

theorem Folded.turning_of_running {k : κ} (h : Folded B v l q) (hk : q.running = some k) :
    ∃ j, Turning B v l q j ∧ B.Comes j q.value (.suspended k) := by
  obtain ⟨hlive, j, hj, hcomes⟩ := h.running k hk
  refine ⟨j, ⟨h.toAccounts, hlive, hj, ?_⟩, hcomes⟩
  rcases h.turns with ⟨-, hidle⟩ | ⟨hl, -, -⟩
  · rw [hk] at hidle
    cases hidle
  · exact hl

theorem Turning.halt {s : Stop σ κ ρ ε} (h : Turning B v l q j) (more : List ι)
    (hs : B.Comes j q.value s) : Folded B v (l ++ q.seen more s) ((q.add more).halt s) := by
  have hadd := h.toAccounts.add more
  have hj : (q.add more).submitted[q.ended.length]? = some j :=
    getElem?_of_grows (List.prefix_append _ _) h.job
  cases s with
  | suspended k =>
    have hlt : q.ended.length < (q.add more).submitted.length :=
      (List.getElem?_eq_some_iff.mp hj).1
    exact {
      toAccounts := by simpa [seen, JobQueue.halt] using hadd.run k
      turns := .inr ⟨by simpa [seen, JobQueue.halt, JobQueue.run] using h.turns, hlt, by
        simp [JobQueue.halt, JobQueue.run]⟩
      running := fun k' hk => by
        obtain rfl := Option.some.inj hk
        exact ⟨h.live, j, hj, hs⟩ }
  | ended e =>
    have hend := (hadd.silent (e := .ended q.ended.length e) rfl fun _ _ he => by cases he).finish
      h.live hj hs
    exact {
      toAccounts := by simpa [seen, JobQueue.halt] using hend
      turns := by
        refine .inl ⟨?_, rfl⟩
        have hvalue := h.value
        simp only [seen, List.filter_append, h.turns, QueueEvent.turns_submissions,
          List.nil_append, JobQueue.halt, JobQueue.finish, JobQueue.add_ended, Ending.turns_concat,
          Nat.zero_add, hvalue]
        simp [QueueEvent.isTurn]
      running := fun k hk => by cases hk }

theorem Folded.create : Folded B v [] { value := v } where
  value := rfl
  submitted := rfl
  ended := fun t e he => by simp at he
  resolved := fun t a hmem => by cases hmem
  turns := .inl ⟨rfl, rfl⟩
  running := fun k hk => by cases hk

theorem Folded.submit (h : Folded B v l q) (j : ι) :
    Folded B v (l ++ [.submitted (q.submit j).2 j]) (q.submit j).1 where
  toAccounts := h.toAccounts.add [j]
  turns := by
    refine h.turns.imp (And.imp_left fun hl => ?_) fun ⟨hl, hlt, hgone⟩ => ⟨?_, ?_, hgone⟩
    · simpa [QueueEvent.isTurn, JobQueue.submit] using hl
    · simpa [QueueEvent.isTurn, JobQueue.submit] using hl
    · exact Nat.lt_of_lt_of_le hlt (List.length_append ▸ Nat.le_add_right _ _)
  running := fun k hk => by
    obtain ⟨hlive, i, hi, hcomes⟩ := h.running k hk
    exact ⟨hlive, i, getElem?_of_grows (List.prefix_append _ _) hi, hcomes⟩

theorem Folded.resolve (h : Folded B v l q) (ha : q.answer? t = some a) :
    Folded B v (l ++ [.resolved t a]) q where
  toAccounts := h.toAccounts.silent rfl fun _ _ he => by
    cases he
    exact ha
  turns := by simpa [QueueEvent.isTurn] using h.turns
  running := h.running

theorem Folded.close (h : Folded B v l q) : Folded B v l q.close where
  toAccounts := h.toAccounts.close
  turns := h.turns.imp (And.imp_right fun _ => rfl) (And.imp_right (And.imp_right fun _ _ => rfl))
  running := fun k hk => by cases hk

theorem Run.folded (h : Run B v l q) : Folded B v l q := by
  induction h with
  | create => exact .create
  | submit _ j ih => exact ih.submit j
  | start _ hj hs ih =>
    rw [← List.singleton_append, ← List.append_assoc]
    exact (ih.turning_of_next hj).halt _ (.first hs)
  | goOn _ hk hs ih =>
    obtain ⟨j, hturning, hcomes⟩ := ih.turning_of_running hk
    exact hturning.halt _ (hcomes.later hs)
  | resolve _ _ ha ih => exact ih.resolve ha
  | close _ ih => exact ih.close

theorem Folded.starts (h : Folded B v l q) :
    ∃ n, n ≤ q.submitted.length ∧ l.filterMap QueueEvent.start? = List.range n := by
  rw [← QueueEvent.start?_of_turns]
  rcases h.turns with ⟨hl, -⟩ | ⟨hl, hlt, -⟩
  · refine ⟨_, h.le, ?_⟩
    rw [hl, Ending.start?_turns, List.range_eq_range']
  · refine ⟨_, hlt, ?_⟩
    rw [hl, List.filterMap_append, Ending.start?_turns, List.range_succ, List.range_eq_range']
    rfl

end JobQueue

end DeviceLock
