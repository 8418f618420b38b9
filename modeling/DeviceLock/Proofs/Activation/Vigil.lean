import DeviceLock.Proofs.Activation.Publication

/-!
Waiting for the end of a unit of work while the scheduler goes on. A report is put into the history
first and announced after that; who waits looks through the history first and falls asleep after
that; and the steps of both may come in any order (`Vigil.Watched`). `Vigil.Watched.attentive` says
that no end is missed, unless too many others have come in between.
-/

namespace DeviceLock

open Scheduler

inductive Showing (ι : Type)
  | keeps (report : ActivationReport ι)
  | announces (report : ActivationReport ι)

namespace Showing

variable {ι : Type}

def ofEvent : SchedulerEvent ι → List (Showing ι)
  | .published r => if r.status.isTerminal then [keeps r, announces r] else [announces r]
  | .entering _ _ => []

def ofLog : List (SchedulerEvent ι) → List (Showing ι)
  | [] => []
  | e :: log => ofLog log ++ ofEvent e

def kept? : Showing ι → Option (ActivationReport ι)
  | keeps r => some r
  | announces _ => none

def announced? : Showing ι → Option (ActivationReport ι)
  | keeps _ => none
  | announces r => some r

theorem kept_ofLog (log : List (SchedulerEvent ι)) :
    ((ofLog log).filterMap kept?).reverse = endsIn log := by
  induction log with
  | nil => rfl
  | cons e log ih =>
    rw [ofLog, List.filterMap_append, List.reverse_append, ih]
    cases e with
    | entering => rfl
    | published r =>
      rw [endsIn_published, ofEvent]
      split <;> rfl

theorem announced_ofLog (log : List (SchedulerEvent ι)) :
    ((ofLog log).filterMap announced?).reverse = reportsIn log := by
  induction log with
  | nil => rfl
  | cons e log ih =>
    rw [ofLog, List.filterMap_append, List.reverse_append, ih]
    cases e with
    | entering => rfl
    | published r =>
      rw [reportsIn_published, ofEvent]
      split <;> rfl

def Followed : List (Showing ι) → Prop
  | [] => True
  | keeps r :: rest => announces r ∈ rest ∧ Followed rest
  | announces _ :: rest => Followed rest

theorem Followed.append {l l' : List (Showing ι)} (h : Followed l) (h' : Followed l') :
    Followed (l ++ l') := by
  induction l with
  | nil => exact h'
  | cons a l ih =>
    cases a with
    | keeps r => exact ⟨List.mem_append_left _ h.1, ih h.2⟩
    | announces r => exact ih h

theorem followed_ofLog (log : List (SchedulerEvent ι)) : Followed (ofLog log) := by
  induction log with
  | nil => trivial
  | cons e log ih =>
    refine ih.append ?_
    cases e with
    | entering => trivial
    | published r =>
      rw [ofEvent]
      split
      · exact ⟨List.mem_cons_self, trivial⟩
      · trivial

end Showing

inductive Watch (ι : Type)
  | away
  | looking (waiter : Waiter ι)
  | asleep (waiter : Waiter ι) (missed : List (ActivationReport ι))
  | returned (report : ActivationReport ι)

structure Vigil (ι : Type) where
  scheduler : Scheduler ι
  pending : List (Showing ι) := []
  kept : List (ActivationReport ι) := []
  history : List (ActivationReport ι) := []
  version : Nat := 0
  watch : Watch ι := .away

namespace Vigil

section

variable {ι : Type}

def view (x : Vigil ι) : Scheduler ι :=
  { x.scheduler with history := x.history, version := x.version }

def goOn (x : Vigil ι) (s : Scheduler ι) : Vigil ι :=
  { x with scheduler := s, pending := Showing.ofLog (x.scheduler.news s) }

end

variable {ι : Type} [DecidableEq ι]

def Found (x : Vigil ι) (w : Waiter ι) : Watch ι :=
  match (w.check x.view).2 with
  | some r => .returned r
  | none => .asleep w x.kept

/-- A scheduler after any calls and any steps of its tasks, with someone who waits for the unit.
What a call or step has published becomes visible before the next one, one showing after the other,
while who waits may take a step at any time. -/
inductive Watched (config : ActivationConfig) (id : ι) : List (ι × LockMode) → Vigil ι → Prop
  | new : Watched config id [] { scheduler := { config } }
  | operate {units units' : List (ι × LockMode)} {x : Vigil ι} {s : Scheduler ι}
      (h : Watched config id units x) (hpending : x.pending = [])
      (ho : Operates units x.scheduler units' s) : Watched config id units' (x.goOn s)
  | keep {units : List (ι × LockMode)} {x : Vigil ι} {r : ActivationReport ι}
      {rest : List (Showing ι)} (h : Watched config id units x)
      (hpending : x.pending = .keeps r :: rest) :
      Watched config id units { x with
        pending := rest
        kept := r :: x.kept
        history := (r :: x.history).take historySize }
  | announce {units : List (ι × LockMode)} {x : Vigil ι} {r : ActivationReport ι}
      {rest : List (Showing ι)} (h : Watched config id units x)
      (hpending : x.pending = .announces r :: rest) :
      Watched config id units { x with pending := rest, version := x.version + 1 }
  | call {units : List (ι × LockMode)} {x : Vigil ι} (h : Watched config id units x)
      (hwatch : x.watch = .away) :
      Watched config id units { x with watch := .looking (.subscribe x.view id) }
  | look {units : List (ι × LockMode)} {x : Vigil ι} {w : Waiter ι}
      (h : Watched config id units x) (hwatch : x.watch = .looking w) :
      Watched config id units { x with watch := x.Found w }
  | wake {units : List (ι × LockMode)} {x : Vigil ι} {w : Waiter ι}
      {missed : List (ActivationReport ι)} (h : Watched config id units x)
      (hwatch : x.watch = .asleep w missed) (hwoken : w.isWoken x.view = true) :
      Watched config id units { x with watch := .looking (w.check x.view).1 }

variable {config : ActivationConfig} {id : ι} {units units' : List (ι × LockMode)} {x : Vigil ι}
  {s : Scheduler ι} {w : Waiter ι} {r : ActivationReport ι} {rest : List (Showing ι)}
  {missed : List (ActivationReport ι)}

structure Sleeps (id : ι) (x : Vigil ι) (w : Waiter ι) (missed : List (ActivationReport ι)) :
    Prop where
  absent : ∀ r ∈ missed.take historySize, r.work ≠ id
  woken : ∃ since, x.kept = since ++ missed ∧
    ∀ r ∈ since, .announces r ∉ x.pending → w.seen < x.version

def Waits (id : ι) (x : Vigil ι) : Prop :=
  match x.watch with
  | .away => True
  | .looking w => w.work = id ∧ w.seen ≤ x.version
  | .asleep w missed => (w.work = id ∧ w.seen ≤ x.version) ∧ Sleeps id x w missed
  | .returned r => r ∈ x.kept ∧ r.work = id

structure Sound (config : ActivationConfig) (id : ι) (units : List (ι × LockMode)) (x : Vigil ι) :
    Prop where
  operated : Operated config units x.scheduler
  history : x.history = x.kept.take historySize
  order : endsIn x.scheduler.log = (x.pending.filterMap Showing.kept?).reverse ++ x.kept
  version : (reportsIn x.scheduler.log).length =
    (x.pending.filterMap Showing.announced?).length + x.version
  followed : Showing.Followed x.pending
  waits : x.Waits id

omit [DecidableEq ι] in
theorem Waits.mono {x' : Vigil ι} (h : x.Waits id) (hwatch : x'.watch = x.watch)
    (hkept : x.kept ⊆ x'.kept) (hversion : x.version ≤ x'.version)
    (hsleeps : ∀ w missed, x.watch = .asleep w missed → Sleeps id x w missed →
      Sleeps id x' w missed) : x'.Waits id := by
  unfold Waits at *
  rw [hwatch]
  cases hw : x.watch with
  | away => trivial
  | looking w =>
    rw [hw] at h
    exact ⟨h.1, Nat.le_trans h.2 hversion⟩
  | asleep w missed =>
    rw [hw] at h
    exact ⟨⟨h.1.1, Nat.le_trans h.1.2 hversion⟩, hsleeps w missed hw h.2⟩
  | returned r =>
    rw [hw] at h
    exact ⟨hkept h.1, h.2⟩

namespace Sound

theorem operate (h : x.Sound config id units) (hpending : x.pending = [])
    (ho : Operates units x.scheduler units' s) : (x.goOn s).Sound config id units' := by
  obtain ⟨new, hlog⟩ := ho.log
  have hnew : (x.goOn s).pending = Showing.ofLog new :=
    congrArg Showing.ofLog (news_eq hlog.symm)
  have horder := h.order
  have hversion := h.version
  rw [hpending] at horder hversion
  refine ⟨h.operated.operates ho, h.history, ?_, ?_, ?_, ?_⟩
  · rw [hnew, Showing.kept_ofLog, goOn, ← hlog, endsIn_append, horder]
    rfl
  · rw [hnew, goOn, ← hlog, reportsIn_append, List.length_append, ← Showing.announced_ofLog new,
      List.length_reverse]
    exact congrArg (_ + ·) (hversion.trans (Nat.zero_add _))
  · rw [hnew]
    exact Showing.followed_ofLog new
  · refine h.waits.mono rfl (List.Subset.refl _) (Nat.le_refl _) ?_
    intro w missed _ hsleeps
    obtain ⟨since, hkept, hwoken⟩ := hsleeps.woken
    refine ⟨hsleeps.absent, since, hkept, ?_⟩
    intro r hr _
    exact hwoken r hr (by simp [hpending])

theorem keep (h : x.Sound config id units) (hpending : x.pending = .keeps r :: rest) :
    Sound config id units { x with
      pending := rest
      kept := r :: x.kept
      history := (r :: x.history).take historySize } := by
  have horder := h.order
  have hversion := h.version
  have hfollowed := h.followed
  rw [hpending] at horder hversion hfollowed
  refine ⟨h.operated, ?_, ?_, hversion, hfollowed.2, ?_⟩
  · rw [h.history]
    exact take_cons_history _ _
  · rw [horder]
    simp [Showing.kept?]
  · refine h.waits.mono rfl (List.subset_cons_self _ _) (Nat.le_refl _) ?_
    intro w missed _ hsleeps
    obtain ⟨since, hkept, hwoken⟩ := hsleeps.woken
    refine ⟨hsleeps.absent, r :: since, congrArg (r :: ·) hkept, ?_⟩
    intro r' hr' hannounced
    rcases List.mem_cons.mp hr' with rfl | hr'
    · -- What has just been kept is still to be announced.
      exact absurd hfollowed.1 hannounced
    · refine hwoken r' hr' ?_
      rw [hpending]
      simpa using hannounced

theorem announce (h : x.Sound config id units) (hpending : x.pending = .announces r :: rest) :
    Sound config id units { x with pending := rest, version := x.version + 1 } := by
  have horder := h.order
  have hversion := h.version
  have hfollowed := h.followed
  rw [hpending] at horder hversion hfollowed
  refine ⟨h.operated, h.history, horder, ?_, hfollowed, ?_⟩
  · rw [hversion]
    simp [Showing.announced?]
    omega
  · refine h.waits.mono rfl (List.Subset.refl _) (Nat.le_succ _) ?_
    intro w missed hwatch hsleeps
    have hseen : w.seen ≤ x.version := by
      have hwaits := h.waits
      rw [Waits, hwatch] at hwaits
      exact hwaits.1.2
    -- Any announcement wakes who sleeps, be it of another unit.
    obtain ⟨since, hkept, -⟩ := hsleeps.woken
    exact ⟨hsleeps.absent, since, hkept, fun _ _ _ => Nat.lt_succ_of_le hseen⟩

theorem look (h : x.Sound config id units) (hwatch : x.watch = .looking w) :
    Sound config id units { x with watch := x.Found w } := by
  refine ⟨h.operated, h.history, h.order, h.version, h.followed, ?_⟩
  have hwaits := h.waits
  rw [Waits, hwatch] at hwaits
  obtain ⟨hid, hseen⟩ := hwaits
  unfold Waits Found
  dsimp only
  cases hfound : (w.check x.view).2 with
  | some r =>
    constructor
    · have hmem : r ∈ x.history := List.mem_of_find?_eq_some hfound
      rw [h.history] at hmem
      exact List.mem_of_mem_take hmem
    · have hwork := List.find?_some hfound
      rw [decide_eq_true_eq] at hwork
      exact hwork.trans hid
  | none =>
    refine ⟨⟨hid, hseen⟩, ?_, [], rfl, ?_⟩
    · intro r hr hwork
      rw [← h.history] at hr
      have hnone := List.find?_eq_none.mp hfound r hr
      exact hnone (decide_eq_true (hwork.trans hid.symm))
    · intro r hr
      cases hr

end Sound

theorem Watched.sound (h : Watched config id units x) : x.Sound config id units := by
  induction h with
  | new => exact ⟨.new, rfl, rfl, rfl, trivial, trivial⟩
  | operate _ hpending ho ih => exact ih.operate hpending ho
  | keep _ hpending ih => exact ih.keep hpending
  | announce _ hpending ih => exact ih.announce hpending
  | call _ _ ih =>
    exact ⟨ih.operated, ih.history, ih.order, ih.version, ih.followed, rfl, Nat.le_refl _⟩
  | look _ hwatch ih => exact ih.look hwatch
  | wake _ hwatch _ ih =>
    have hwaits := ih.waits
    rw [Waits, hwatch] at hwaits
    exact ⟨ih.operated, ih.history, ih.order, ih.version, ih.followed, hwaits.1.1, Nat.le_refl _⟩

namespace Sound

theorem nodup_kept (h : x.Sound config id units) : (x.kept.map (·.work)).Nodup := by
  obtain ⟨k, hk⟩ := h.operated.records
  have hnodup := hk.log.nodup_endsIn
  rw [h.order, List.map_append, List.nodup_append] at hnodup
  exact hnodup.2.1

theorem check_iff (h : x.Sound config id units) {later earlier : List (ActivationReport ι)}
    (hkept : x.kept = later ++ r :: earlier) (hw : w.work = r.work) :
    (w.check x.view).2 = some r ↔ later.length < historySize := by
  have hnodup := h.nodup_kept
  have hother : ∀ r' ∈ later, ¬ decide (r'.work = w.work) = true := by
    intro r' hr' hwork
    rw [hkept, List.map_append, List.nodup_append] at hnodup
    exact hnodup.2.2 _ (List.mem_map_of_mem hr') _ (List.mem_map_of_mem List.mem_cons_self)
      ((of_decide_eq_true hwork).trans hw)
  have hcheck : (w.check x.view).2 =
      ((later ++ r :: earlier).take historySize).find? (·.work = w.work) := by
    rw [← hkept, ← h.history]
    rfl
  rw [hcheck, List.take_append, List.find?_append]
  have hlater : (later.take historySize).find? (·.work = w.work) = none :=
    List.find?_eq_none.mpr fun r' hr' => hother r' (List.mem_of_mem_take hr')
  rw [hlater, Option.none_or]
  constructor
  · intro hfound
    apply Nat.not_le.mp
    intro hle
    rw [Nat.sub_eq_zero_of_le hle] at hfound
    cases hfound
  · intro hlt
    obtain ⟨n, hn⟩ := Nat.exists_eq_succ_of_ne_zero (Nat.sub_ne_zero_of_lt hlt)
    rw [hn, List.take_succ_cons, List.find?_cons_of_pos]
    exact decide_eq_true hw.symm

theorem woken (h : x.Sound config id units) (hwatch : x.watch = .asleep w missed)
    (hr : r ∈ x.kept) (hid : r.work = id) (hannounced : .announces r ∉ x.pending) :
    w.isWoken x.view = true ∨
      ∃ since earlier, missed = since ++ r :: earlier ∧ historySize ≤ since.length := by
  have hwaits := h.waits
  rw [Waits, hwatch] at hwaits
  obtain ⟨-, hsleeps⟩ := hwaits
  obtain ⟨new, hkept, hwoken⟩ := hsleeps.woken
  rw [hkept] at hr
  rcases List.mem_append.mp hr with hr | hr
  · exact .inl (decide_eq_true (hwoken r hr hannounced))
  · obtain ⟨since, earlier, hmissed⟩ := List.append_of_mem hr
    refine .inr ⟨since, earlier, hmissed, ?_⟩
    apply Nat.not_lt.mp
    intro hlt
    refine hsleeps.absent r ?_ hid
    rw [hmissed, List.take_append]
    apply List.mem_append_right
    obtain ⟨n, hn⟩ := Nat.exists_eq_succ_of_ne_zero (Nat.sub_ne_zero_of_lt hlt)
    rw [hn, List.take_succ_cons]
    exact List.mem_cons_self

end Sound

structure Attentive (id : ι) (x : Vigil ι) : Prop where
  latest : x.history = x.kept.take historySize
  once : (x.kept.map (·.work)).Nodup
  published : endsIn x.scheduler.log = (x.pending.filterMap Showing.kept?).reverse ++ x.kept
  settled : x.pending = [] → x.view = x.scheduler
  returned : ∀ r, x.watch = .returned r →
    r ∈ x.kept ∧ r.work = id ∧ r.status.isTerminal = true
  own : ∀ w : Waiter ι, (x.watch = .looking w ∨ ∃ missed, x.watch = .asleep w missed) → w.work = id
  found : ∀ later r earlier, x.kept = later ++ r :: earlier → ∀ w : Waiter ι,
    w.work = r.work →
    ((w.check x.view).2 = some r ↔ later.length < historySize)
  woken : ∀ w missed, x.watch = .asleep w missed → missed <:+ x.kept ∧
    ∀ r ∈ x.kept, r.work = id → .announces r ∉ x.pending → w.isWoken x.view = true ∨
      ∃ since earlier, missed = since ++ r :: earlier ∧ historySize ≤ since.length

theorem Watched.attentive (h : Watched config id units x) : x.Attentive id := by
  have hs := h.sound
  constructor
  · exact hs.history
  · exact hs.nodup_kept
  · exact hs.order
  · intro hpending
    have hposts := hs.operated.posts
    have horder := hs.order
    have hversion := hs.version
    rw [hpending] at horder hversion
    have hhistory : x.history = x.scheduler.history := by
      rw [hs.history, hposts.history, horder]
      rfl
    have hcount : x.version = x.scheduler.version := by
      rw [hposts.version, hversion]
      exact (Nat.zero_add _).symm
    rw [view, hhistory, hcount]
  · intro r hwatch
    have hwaits := hs.waits
    rw [Waits, hwatch] at hwaits
    have hmem : r ∈ endsIn x.scheduler.log := by
      rw [hs.order]
      exact List.mem_append_right _ hwaits.1
    exact ⟨hwaits.1, hwaits.2, isTerminal_of_mem_endsIn hmem⟩
  · intro w hwatch
    have hwaits := hs.waits
    rcases hwatch with hwatch | ⟨missed, hwatch⟩
    · rw [Waits, hwatch] at hwaits
      exact hwaits.1
    · rw [Waits, hwatch] at hwaits
      exact hwaits.1.1
  · intro later r earlier hkept w hw
    exact hs.check_iff hkept hw
  · intro w missed hwatch
    refine ⟨?_, fun r hr hid hannounced => hs.woken hwatch hr hid hannounced⟩
    have hwaits := hs.waits
    rw [Waits, hwatch] at hwaits
    obtain ⟨since, hkept, -⟩ := hwaits.2.woken
    exact ⟨since, hkept.symm⟩

theorem attentive_cancelled :
    ∃ (x : Vigil Nat) (r : ActivationReport Nat), Watched {} 0 [(0, .lockUi)] x ∧
      x.watch = .returned r ∧ r.status = .cancelled ∧ x.Attentive 0 := by
  obtain ⟨now⟩ := nonempty_timestamp
  have hlocked : Watched {} 0 [(0, .lockUi)] _ :=
    (Watched.new.operate rfl (.schedule now (by decide) .lockUi)).announce rfl
  have hasleep := (hlocked.call rfl).look rfl
  have hended := ((hasleep.operate rfl (.cancel now)).keep rfl).announce rfl
  have hreturned := (hended.wake rfl rfl).look rfl
  exact ⟨_, _, hreturned, rfl, rfl, hreturned.attentive⟩

end Vigil

end DeviceLock
