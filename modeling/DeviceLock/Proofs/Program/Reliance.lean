import DeviceLock.Proofs.Program.Obliging

namespace DeviceLock

open Program

def Operation.isLifecycle : Operation → Bool
  | userUnlocked | setupCompleted | setupTimeout | reconcile | alarm .setupCompletionTimeout
  | alarm .criticalEnforcementRetry => true
  | _ => false

/-- The deeds end with the answer of a policy job, which is a transition only by the event, and only
if the cursor was read at the state that admits it. -/
inductive Relies (event : ProvisionEvent) : List Deed → Except Fault Reply → Prop
  | plain {i : List Deed} {t : Ticket} {j : PolicyJob} {x : Except Fault Reply}
      (hj : ∀ e, j ≠ .transition e) :
      Relies event (i ++ [.act (.submit (.policy j)) t, .request (.await t) x]) x
  | raised {i : List Deed} {t : Ticket} {x : Except Fault Reply}
      (hread : .request .cursor (.ok (ProvisionState.source event)) ∈ i) :
      Relies event (i ++ [.act (.submit (.policy (.transition event))) t, .request (.await t) x]) x

theorem Relies.append {event : ProvisionEvent} {l : List Deed} {x : Except Fault Reply}
    (h : Relies event l x) (k : List Deed) : Relies event (k ++ l) x := by
  cases h with
  | plain hj =>
    rw [← List.append_assoc]
    exact .plain hj
  | raised hread =>
    rw [← List.append_assoc]
    exact .raised (List.mem_append_right _ hread)

inductive DeviceRequest.Refusal.Read (l : List Deed) : DeviceRequest.Refusal → Prop
  | enrolling {p : ProvisionState} (hread : .request .cursor (.ok p) ∈ l)
      (hp : p.isEnrolling = true) : Read l (.notYetProvisioned p)
  | pseudo (hread : .request .cursor (.ok .unprovisioned) ∈ l) (h : .act .pseudo .cleared ∈ l) :
      Read l .deviceCleared
  | stored {p : ProvisionState} {d : Document} (hread : .request .cursor (.ok p) ∈ l)
      (hp : p ≠ .unprovisioned) (h : .request .load (.ok d) ∈ l) (hd : d.device = .cleared) :
      Read l .deviceCleared

inductive DeviceRequest.Course (request : DeviceRequest) :
    List Deed → Except Fault DeviceState → Prop
  | refused {l : List Deed} {reason : DeviceRequest.Refusal} (hl : ∀ d ∈ l, d.Within .measuring)
      (hreason : reason.Read l) : Course request l (.error (.refused reason))
  | pseudo {i : List Deed} (hi : ∀ d ∈ i, d.Within .measuring)
      (hread : .request .cursor (.ok .unprovisioned) ∈ i) :
      Course request (i ++ [.act (.setPseudo request.target) ()]) (.ok request.target)
  | persisted {p : ProvisionState} {i k : List Deed} {x : Except Fault Reply}
      (hread : .request .cursor (.ok p) ∈ i) (hp : p.hasKiosk = true)
      (hk : ∀ d ∈ k, d.Within (.caller fun _ => True))
      (h : Relies .success (i ++ .request (.write (.device request.target)) (.ok ()) :: k) x) :
      Course request (i ++ .request (.write (.device request.target)) (.ok ()) :: k)
        (x.map fun _ => request.target)

namespace Program

variable {event : ProvisionEvent} {l : List Deed}

theorem not_served_of_cursor {e : StorageFault}
    (hl : ∀ d ∈ l, d.Served) : .request .cursor (.error e) ∉ l := by
  intro h
  obtain ⟨p, hp⟩ := hl _ h
  cases hp

theorem not_served_of_load {e : StorageFault} (hl : ∀ d ∈ l, d.Served) :
    .request .load (.error e) ∉ l := by
  intro h
  obtain ⟨d, hd⟩ := hl _ h
  cases hd

theorem not_served_of_write {c : Change} {e : StorageFault} (hl : ∀ d ∈ l, d.Served) :
    .request (.write c) (.error e) ∉ l := by
  intro h
  have hwrite : Except.error e = Except.ok () := hl _ h
  cases hwrite

theorem setupDone_served : setupDone.Meets .served fun r => ∃ b, r = .ok b := by
  refine meets_bind.mpr ⟨trivial, fun b _ => ?_⟩
  change (if b = true then pure true else _ : Program Bool).Meets _ _
  split
  · exact ⟨true, rfl⟩
  · refine ⟨trivial, ?_⟩
    rintro _ ⟨d, rfl⟩
    exact ⟨_, rfl⟩

theorem effective_served : effective.Meets .served fun r => ∃ s, r = .ok s := by
  refine ⟨trivial, ?_⟩
  rintro _ ⟨p, rfl⟩
  change (if p = .unprovisioned then _ else _ : Program (ProvisionState × DeviceState)).Meets _ _
  split
  · exact ⟨trivial, fun d => ⟨_, rfl⟩⟩
  · refine ⟨trivial, ?_⟩
    rintro _ ⟨d, rfl⟩
    exact ⟨_, rfl⟩

theorem ends_reply {j : PolicyJob} {α : Type} {y : α} {r : Except Fault α}
    (h : Ends (discard (await (.policy j)) >>= fun _ => pure y) l r) :
    ∃ t x, l = [.act (.submit (.policy j)) t, .request (.await t) x] ∧ r = x.map fun _ => y := by
  rcases ends_discard_await.mp h with ⟨t, e, rfl, rfl⟩ | ⟨t, a, k, rfl, hk⟩
  · exact ⟨t, .error e, rfl, rfl⟩
  · obtain ⟨rfl, rfl⟩ := ends_pure.mp hk
    exact ⟨t, .ok a, rfl, rfl⟩

theorem relies_reenforce {r : Except Fault Reply} (h : Ends reenforce l r) :
    ∃ x, Relies event l x ∧ r = x.map fun _ => .unit := by
  obtain ⟨t, x, rfl, rfl⟩ := ends_reply h
  exact ⟨x, .plain (i := []) (by simp), rfl⟩

theorem relies_raiseReady {i : List Deed} {r : Except Fault Reply} (h : Ends raiseReady l r)
    (hread : .request .cursor (.ok .unprovisioned) ∈ i) :
    ∃ x, Relies .ready (i ++ l) x ∧ r = x.map fun _ => .unit := by
  obtain ⟨t, x, rfl, rfl⟩ := ends_reply (j := .transition .ready) h
  exact ⟨x, .raised hread, rfl⟩

theorem relies_reconcile {r : Except Fault Reply} (h : Ends reconcile l r)
    (hl : ∀ d ∈ l, d.Served) : ∃ x, Relies .ready l x ∧ r = x.map fun _ => .unit := by
  have hplain (k : List Deed) {m : List Deed} (h : Ends reenforce m r) :
      ∃ x, Relies .ready (k ++ m) x ∧ r = x.map fun _ => .unit :=
    (relies_reenforce h).imp fun x hx => ⟨hx.1.append k, hx.2⟩
  rcases ends_cursor.mp h with ⟨e, rfl, -⟩ | ⟨p, k, rfl, hk⟩
  · exact absurd List.mem_cons_self (not_served_of_cursor hl)
  split at hk
  · rename_i hp
    subst hp
    rcases ends_bind.mp hk with ⟨e, he, -⟩ | ⟨b, i, m, rfl, -, hm⟩
    · obtain ⟨b, hb⟩ := setupDone_served.ends he fun d hd => hl d (List.mem_cons_of_mem _ hd)
      cases hb
    split at hm
    · rcases ends_load.mp hm with ⟨e, rfl, -⟩ | ⟨doc, m, rfl, hready⟩
      · exact absurd (by simp) (not_served_of_load (e := e) hl)
      split at hready
      · have hraised := relies_raiseReady hready (i := .request .cursor (.ok .unprovisioned) ::
          (i ++ [.request .load (.ok doc)])) (by simp)
        simpa using hraised
      · have henforced := hplain
          (.request .cursor (.ok .unprovisioned) :: (i ++ [.request .load (.ok doc)])) hready
        rwa [List.cons_append, List.append_assoc] at henforced
    · exact hplain (.request .cursor (.ok .unprovisioned) :: i) hm
  · exact hplain [.request .cursor (.ok p)] hk

end Program

variable {l : List Deed}

theorem Operation.ends_lifecycle {config : EngineConfig} {op : Operation} {r : Except Fault Reply}
    (hop : op.isLifecycle = true) (h : Ends (op.program config) l r) (hl : ∀ d ∈ l, d.Served) :
    ∃ x, Relies .ready l x ∧ r = x.map fun _ => .unit := by
  have hwritten (h : Ends Program.setupTimeout l r) :
      ∃ x, Relies .ready l x ∧ r = x.map fun _ => .unit := by
    rcases ends_write.mp h with ⟨e, rfl, -⟩ | ⟨u, k, rfl, hk⟩
    · exact absurd List.mem_cons_self (not_served_of_write hl)
    · obtain ⟨x, hx, hr⟩ := relies_reconcile hk fun d hd => hl d (List.mem_cons_of_mem _ hd)
      exact ⟨x, hx.append [_], hr⟩
  cases op with
  | userUnlocked =>
    rcases ends_discard_await.mp h with ⟨t, e, rfl, rfl⟩ | ⟨t, a, k, rfl, hk⟩
    · exact ⟨.error e, .plain (i := []) (j := .invalidate) (by simp), rfl⟩
    · obtain ⟨x, hx, hr⟩ := relies_reconcile hk fun d hd =>
        hl d (List.mem_cons_of_mem _ (List.mem_cons_of_mem _ hd))
      exact ⟨x, hx.append [_, _], hr⟩
  | setupCompleted => exact relies_reconcile h hl
  | reconcile => exact relies_reconcile h hl
  | setupTimeout => exact hwritten h
  | alarm a =>
    cases a with
    | setupCompletionTimeout => exact hwritten h
    | criticalEnforcementRetry => exact relies_reconcile h hl
    | finalizationReportRetry => cases hop
  | _ => cases hop

namespace Program

theorem read_of_plan {request : DeviceRequest} {reason : DeviceRequest.Refusal}
    {p : ProvisionState} {d : DeviceState} {lenient : Bool} (h : Ends effective l (.ok (p, d)))
    (hplan : request.plan p d lenient = .error reason) : reason.Read l := by
  obtain ⟨k, rfl, hk⟩ := ends_effective h
  rcases DeviceRequest.plan_error hplan with ⟨rfl, rfl⟩ | ⟨rfl, hp⟩
  · rcases hk with ⟨rfl, rfl⟩ | ⟨hp, doc, rfl, hd⟩
    · exact .pseudo (by simp) (by simp)
    · exact .stored (by simp) hp (by simp) hd
  · exact .enrolling List.mem_cons_self hp

theorem course_persist {request : DeviceRequest} {p : ProvisionState} {i : List Deed}
    {r : Except Fault DeviceState} (hclear : request ≠ .clear)
    (hread : .request .cursor (.ok p) ∈ i) (hp : p.hasKiosk = true)
    (h : Ends (persist request p request.target) l r) (hl : ∀ d ∈ l, d.Served) :
    request.Course (i ++ l) r := by
  have htarget : request.target ≠ .cleared := by
    cases request <;> first | decide | exact absurd rfl hclear
  unfold persist at h
  simp only [only_bind, if_neg htarget] at h
  rcases ends_write.mp h with ⟨e, rfl, -⟩ | ⟨u, k, rfl, hk⟩
  · exact absurd List.mem_cons_self (not_served_of_write hl)
  rcases ends_discard_await.mp hk with ⟨t, e, rfl, rfl⟩ | ⟨t, a, k, rfl, hrest⟩
  · refine .persisted (x := .error e) hread hp (by simp [Deed.Within, Footprint.caller]) ?_
    have hrelies : Relies .success ((i ++ [.request (.write (.device request.target)) (.ok u)]) ++
        [.act (.submit (.policy .enforce)) t, .request (.await t) (.error e)]) (.error e) :=
      .plain (by simp)
    simpa using hrelies
  split at hrest
  · rename_i hsuccess
    obtain rfl := hsuccess.2
    obtain ⟨t', x, rfl, rfl⟩ := ends_reply hrest
    refine .persisted hread hp (by simp [Deed.Within, Footprint.caller]) ?_
    have hrelies : Relies .success ((i ++ [.request (.write (.device request.target)) (.ok u),
        .act (.submit (.policy .enforce)) t, .request (.await t) (.ok a)]) ++
          [.act (.submit (.policy (.transition .success))) t', .request (.await t') x]) x :=
      .raised (List.mem_append_left _ hread)
    simpa using hrelies
  · obtain ⟨rfl, rfl⟩ := ends_pure.mp hrest
    refine .persisted (x := .ok a) hread hp (by simp [Deed.Within, Footprint.caller]) ?_
    have hrelies : Relies .success ((i ++ [.request (.write (.device request.target)) (.ok u)]) ++
        [.act (.submit (.policy .enforce)) t, .request (.await t) (.ok a)]) (.ok a) :=
      .plain (by simp)
    simpa using hrelies

theorem ends_carryOut {config : DeviceConfig} {request : DeviceRequest}
    {r : Except Fault DeviceState} (hclear : request ≠ .clear)
    (h : Ends (carryOut config request) l r) (hl : ∀ d ∈ l, d.Served) : request.Course l r := by
  rw [carryOut_eq] at h
  rcases ends_bind.mp h with ⟨e, he, -⟩ | ⟨⟨p, d⟩, i, m, rfl, hi, hm⟩
  · obtain ⟨s, hs⟩ := effective_served.ends he hl
    cases hs
  have hmeasuring := effective_within.walk (fun _ _ => trivial) hi
  have hread : .request .cursor (.ok p) ∈ i := by
    obtain ⟨k, rfl, -⟩ := ends_effective hi
    exact List.mem_cons_self
  dsimp only at hm
  split at hm
  · rename_i hplan
    obtain ⟨rfl, rfl⟩ := ends_throw.mp hm
    rw [List.append_nil]
    exact .refused hmeasuring (read_of_plan hi hplan)
  · rename_i target hplan
    obtain ⟨rfl, rfl⟩ := DeviceRequest.plan_pseudo hplan
    obtain ⟨x, a, rfl, ha⟩ := ends_perform_bind.mp hm
    obtain ⟨rfl, rfl⟩ := ends_pure.mp ha
    exact .pseudo hmeasuring hread
  · rename_i target hplan
    obtain ⟨hp, rfl⟩ := DeviceRequest.plan_persist hplan
    exact course_persist hclear hread hp hm fun d hd => hl d (List.mem_append_right _ hd)

end Program

end DeviceLock
