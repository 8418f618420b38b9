import DeviceLock.Proofs.Engine.Span

namespace DeviceLock

namespace Machine

variable {lane : Lane} {m : Machine} {c : Conduct}

theorem exists_none_of_mapM {α : Type} {l : List (Option α)} (h : l.mapM id = none) :
    ∃ k : Nat, l[k]? = some none := by
  induction l with
  | nil => cases h
  | cons x l ih =>
    cases x with
    | none => exact ⟨0, rfl⟩
    | some x =>
      have hl : l.mapM id = none := by
        cases hl : l.mapM id with
        | none => rfl
        | some xs => simp [List.mapM_cons, hl] at h
      obtain ⟨k, hk⟩ := ih hl
      exact ⟨k + 1, hk⟩

theorem eq_map_of_mapM {α : Type} {l : List (Option α)} {xs : List α} (h : l.mapM id = some xs) :
    l = xs.map some := by
  induction l generalizing xs with
  | nil =>
    obtain rfl := Option.some.inj h
    rfl
  | cons o l ih =>
    simp only [List.mapM_cons, id, bind, Option.bind_eq_some_iff, pure, Option.some.injEq] at h
    obtain ⟨a, rfl, as, has, rfl⟩ := h
    rw [ih has, List.map_cons]

theorem respond_ne_pending {r : Request} (m : Machine) (c : Conduct) (hj : ∀ n, r ≠ .join n)
    (ha : ∀ t, r ≠ .await t) : (m.respond c r).2 ≠ .pending := by
  intro hpending
  rcases h : m.respond c r with ⟨m₁, x⟩
  obtain rfl : x = .pending := by rwa [h] at hpending
  cases responds h with
  | unjoined => exact hj _ rfl
  | unanswered => exact ha _ rfl

theorem respond_of_calm {r : Request} (m : Machine) (hc : c.Calm) (hj : ∀ n, r ≠ .join n)
    (ha : ∀ t, r ≠ .await t) : ∃ m₁ x, m.respond c r = (m₁, .answer x) := by
  rcases h : m.respond c r with ⟨m₁, _ | _ | x⟩
  · exact absurd (congrArg Prod.snd h) (respond_ne_pending m c hj ha)
  · exact absurd hc (respond_calm h)
  · exact ⟨m₁, x, rfl⟩

theorem respond_join {n : Nat} (m : Machine) (c : Conduct) (hn : n < m.engine.passes.length) :
    (∃ x, m.respond c (.join n) = (m, .answer x)) ∨
      ∃ k, ∀ now result, ∃ m', m.step? now (.callbackEnds n k result) = some m' := by
  have hp : m.engine.passes[n]? = some m.engine.passes[n] := List.getElem?_eq_getElem hn
  cases hends : (m.engine.passes[n]).ends.mapM id with
  | some ends =>
    refine .inl ⟨m.engine.capabilities.zip ends, ?_⟩
    simp [respond, Engine.ends?, hp, hends]
  | none =>
    obtain ⟨k, hk⟩ := exists_none_of_mapM hends
    refine .inr ⟨k, fun now result => ?_⟩
    simp [step?, endCallback?, hp, hk]

theorem resume_or_callback {r : Request}
    {next : r.Answer → Program (lane.Value × Except Fault Reply)}
    (hp : (m.engine.queue lane).running = some (.wait r next)) (ha : ∀ t, r ≠ .await t)
    (hj : ∀ n, r = .join n → n < m.engine.passes.length) :
    (∀ now c, c.Calm → ∃ m', m.step? now (.resume (.job lane) c) = some m') ∨
      ∃ n k, ∀ now result, ∃ m', m.step? now (.callbackEnds n k result) = some m' := by
  have hresume {c : Conduct} {m₁ : Machine} {x : r.Answer} (now : Timestamp)
      (h : m.respond c r = (m₁, .answer x)) :
      ∃ m', m.step? now (.resume (.job lane) c) = some m' := by
    have hr : m.resume? now c (.wait r next) =
        some ((m₁.advance now (next x)).1, (m₁.advance now (next x)).2) := by
      simp only [resume?, h]
    exact ⟨_, resume_of_running hp hr⟩
  by_cases hjoin : ∃ n, r = .join n
  · obtain ⟨n, rfl⟩ := hjoin
    rcases respond_join m {} (hj n rfl) with ⟨x, hx⟩ | ⟨k, hk⟩
    · exact .inl fun now c _ => hresume now hx
    · exact .inr ⟨n, k, hk⟩
  · refine .inl fun now c hc => ?_
    obtain ⟨m₁, x, hx⟩ := respond_of_calm m hc (fun n hn => hjoin ⟨n, hn⟩) ha
    exact hresume now hx

theorem Span.goes_on {P : Action → Prop} {b : Machine} {j : PolicyJob} {l : List Deed}
    (h : Span .policy P b j l m) :
    l.countP Deed.isRequest ≤ 17 ∧ (¬ m.Idle .policy → l.countP Deed.isRequest < 17 ∧
      ((∀ now c, c.Calm → ∃ m', m.step? now (.resume (.job .policy) c) = some m') ∨
        ∃ n k, ∀ now result, ∃ m', m.step? now (.callbackEnds n k result) = some m')) := by
  have hbrief : (b.opening .policy j).Brief 17 := PolicyJob.program_brief _ _ j
  cases h.stage with
  | ended hidle hend =>
    obtain ⟨q, hwalk⟩ := hend.walk
    obtain ⟨n, hn, -⟩ := hwalk.brief hbrief
    exact ⟨by omega, fun hbusy => absurd hidle hbusy⟩
  | running hr hwalk =>
    rename_i r next
    obtain ⟨n, hn, k, rfl, -⟩ := hwalk.brief hbrief
    refine ⟨by omega, fun _ => ⟨by omega, ?_⟩⟩
    have hwithin := Program.Meets.walk (opening_within b .policy j) hwalk fun d _ => by
      cases d <;> trivial
    refine resume_or_callback hr (fun t ht => ?_) fun n hn => ?_
    · subst ht
      exact hwithin.2.1
    · have hgrounded : (b.opening .policy j).Grounded fun _ => False :=
        PolicyJob.program_grounded _ _ j
      obtain ⟨d, hd, hissued⟩ | hnone := (hwalk.grounded hgrounded).1 n hn
      · exact h.issued d hd n hissued
      · exact hnone.elim

theorem Works.finish {P : Action → Prop} {b : Machine} {l : List Deed} {n : Nat}
    (hw : Works lane P b l m) (hb : b.Follows .usual) (hp : P (.resume (.job lane) c))
    (hc : c.Calm)
    (hbrief : ∀ j, (b.opening lane j).Brief n)
    (hfree : ∀ r, lane.footprint.requests r → (∀ n, r ≠ .join n) ∧ ∀ t, r ≠ .await t) :
    ∃ l' m', Works lane P b l' m' ∧ m'.Idle lane := by
  obtain ⟨k, hk⟩ : ∃ k, n ≤ l.countP Deed.isRequest + k := ⟨n, Nat.le_add_left _ _⟩
  induction k generalizing l m with
  | zero =>
    obtain ⟨j, hj, hspan⟩ := hw.span hb
    cases hspan.stage with
    | ended hidle => exact ⟨l, m, hw, hidle⟩
    | running hr hwalk he hv =>
      obtain ⟨k, hn, i, rfl, -⟩ := hwalk.brief (hbrief j)
      omega
  | succ k ih =>
    obtain ⟨j, hj, hspan⟩ := hw.span hb
    cases hspan.stage with
    | ended hidle => exact ⟨l, m, hw, hidle⟩
    | running hr hwalk he hv =>
      rename_i r next
      have hwithin := (Program.Meets.walk (opening_within b lane j) hwalk fun d _ => by
        cases lane <;> cases d <;> trivial).2.1
      obtain ⟨hj, ha⟩ := hfree r hwithin
      obtain ⟨m₁, x, hx⟩ := respond_of_calm m hc hj ha
      have hresume : m.resume? epoch c (.wait r next) =
          some ((m₁.advance epoch (next x)).1, (m₁.advance epoch (next x)).2) := by
        simp only [resume?, hx]
      refine ih (.own hw hp (resume_of_running hr hresume)) ?_
      simp only [log, hr, answered, hx, List.countP_append, List.countP_cons, Deed.isRequest,
        if_true]
      omega

end Machine

end DeviceLock
