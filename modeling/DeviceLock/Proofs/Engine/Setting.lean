import DeviceLock.Proofs.Engine.Execution
import DeviceLock.Proofs.Program.Obliging

namespace DeviceLock

open Program

structure Setting where
  wall : Timestamp
  answer : Question → Bool

namespace Deed

def Expected (S : Setting) : Deed → Prop
  | act .now t => t = S.wall
  | request (.ask q) b => b = S.answer q
  | d => d.Served

end Deed

namespace Program

variable {α β : Type} {D : Deed → Prop} {S : Setting} {s : Bench}
  {K K' : Except Fault α → Bench → Prop} {J : Except Fault β → Bench → Prop}

theorem Leads.imp {p : Program α} (h : p.Leads D s K) (hK : ∀ r s', K r s' → K' r s') :
    p.Leads D s K' :=
  fun l r s' hl hx => hK r s' (h l r s' hl hx)

theorem leads_done {r : Except Fault α} (h : K r s) : (done r).Leads D s K := by
  intro l r' s' hl hx
  obtain ⟨rfl, rfl⟩ := ends_done.mp hl
  obtain rfl := hx.of_nil
  exact h

theorem leads_pure {a : α} (h : K (.ok a) s) : (pure a : Program α).Leads D s K := leads_done h

theorem leads_bind {p : Program α} {f : α → Program β} (hp : p.Within .direct)
    (h : p.Leads D s fun r s₁ =>
      (∀ a, r = .ok a → (f a).Leads D s₁ J) ∧ ∀ e, r = .error e → J (.error e) s₁) :
    (p >>= f).Leads D s J := by
  intro l r s' hl hx
  rcases ends_bind.mp hl with ⟨e, he, rfl⟩ | ⟨a, i, k, rfl, hi, hk⟩
  · exact (h l _ s' he hx).2 e rfl
  · obtain ⟨s₁, hxi, hxk⟩ := hx.append_inv (hp.walk (fun _ _ => trivial) hi)
    exact (h i _ s₁ hi hxi).1 a rfl k r s' hk hxk

theorem leads_attempt_bind {p : Program α} {f : Except Fault α → Program β}
    (hp : p.Within .direct) (h : p.Leads D s fun r s₁ => (f r).Leads D s₁ J) :
    (attempt p >>= f).Leads D s J := by
  intro l r s' hl hx
  obtain ⟨x, i, k, rfl, hi, hk⟩ := ends_attempt_bind.mp hl
  obtain ⟨s₁, hxi, hxk⟩ := hx.append_inv (hp.walk (fun _ _ => trivial) hi)
  exact h i x s₁ hi hxi k r s' hk hxk

theorem leads_perform {a : Act} {f : a.Answer → Program β}
    (hw : ∀ x, (Deed.act a x).Within .direct)
    (h : ∀ x, D (.act a x) → (Deed.act a x).Fits s.core → (f x).Leads D (s.after (.act a x)) J) :
    (perform a >>= f).Leads D s J := by
  intro l r s' hl hx
  obtain ⟨x, k, rfl, hk⟩ := ends_perform_bind.mp hl
  obtain ⟨hD, hfits, hx⟩ := hx.of_deed (hw x)
  exact h x hD hfits k r s' hk hx

theorem leads_request {q : Request} {f : q.Answer → Program β}
    (hw : ∀ x, (Deed.request q x).Within .direct)
    (h : ∀ x, D (.request q x) → (Deed.request q x).Fits s.core →
      (f x).Leads D (s.after (.request q x)) J) :
    (request q >>= f).Leads D s J := by
  intro l r s' hl hx
  obtain ⟨x, k, rfl, hk⟩ := ends_request_bind.mp hl
  obtain ⟨hD, hfits, hx⟩ := hx.of_deed (hw x)
  exact h x hD hfits k r s' hk hx

theorem leads_await (lane : Lane) (w : lane.Work) {R : Except Fault Reply → Bench → Prop}
    (h : (lane.program s.config (s.value lane) w).Leads D s fun r s₁ =>
      R (r.bind Prod.snd) (s₁.settle lane r)) : (await (lane.job w)).Leads D s R := by
  intro l x s' hl hx
  obtain ⟨t, rfl⟩ := ends_await.mp hl
  obtain ⟨k, r, s₁, hk, hxk, rfl, hnil⟩ := hx.of_job
  obtain rfl := hnil.of_nil
  exact h k r s₁ hk hxk

theorem leads_await_bind {j : Job} {f : Reply → Program β}
    (h : (await j).Leads D s fun r s₁ =>
      (∀ a, r = .ok a → (f a).Leads D s₁ J) ∧ ∀ e, r = .error e → J (.error e) s₁) :
    (await j >>= f).Leads D s J := by
  intro l r s' hl hx
  rcases ends_bind.mp hl with ⟨e, he, rfl⟩ | ⟨a, i, k, rfl, hi, hk⟩
  · exact (h l _ s' he hx).2 e rfl
  obtain ⟨t, rfl⟩ := ends_await.mp hi
  obtain ⟨lane, w, rfl⟩ : ∃ lane w, j = Lane.job lane w := by
    cases j with
    | policy w => exact ⟨.policy, w, rfl⟩
    | request w => exact ⟨.requests, w, rfl⟩
    | finalization w => exact ⟨.finalization, w, rfl⟩
  obtain ⟨m, y, s₁, hm, hxm, hy, hx⟩ := hx.of_job
  have hend : Executes D s [.act (.submit (lane.job w)) t, .request (.await t) (.ok a)]
      (s₁.settle lane y) := hy ▸ .job hm hxm (.nil _)
  exact (h _ _ _ hi hend).1 a rfl k r s' hk hx

theorem discard_bind (p : Program α) (f : Unit → Program β) :
    discard p >>= f = p >>= fun _ => f () := by
  change (p >>= fun _ => pure ()) >>= f = _
  rw [bind_assoc]
  rfl

section Expected

theorem leads_cursor {f : ProvisionState → Program β}
    (h : (f s.core.position).Leads (Deed.Expected S)
      { s with core := { s.core with cursor := some s.core.position } } J) :
    (cursor >>= f).Leads (Deed.Expected S) s J := by
  intro l r s' hl hx
  rcases ends_cursor.mp hl with ⟨e, rfl, -⟩ | ⟨p, k, rfl, hk⟩
  · obtain ⟨⟨p, hp⟩, -⟩ := hx.of_deed trivial
    cases hp
  · obtain ⟨-, hp, hx⟩ := hx.of_deed trivial
    obtain rfl : p = s.core.position := hp
    exact h k r s' hk hx

theorem leads_load {f : Document → Program β}
    (h : (f s.core.document).Leads (Deed.Expected S) s J) :
    (load >>= f).Leads (Deed.Expected S) s J := by
  intro l r s' hl hx
  rcases ends_load.mp hl with ⟨e, rfl, -⟩ | ⟨d, k, rfl, hk⟩
  · obtain ⟨⟨d, hd⟩, -⟩ := hx.of_deed trivial
    cases hd
  · obtain ⟨-, hd, hx⟩ := hx.of_deed trivial
    obtain rfl : d = s.core.document := hd
    exact h k r s' hk hx

theorem leads_write {c : Change} {f : Unit → Program β}
    (h : (f ()).Leads (Deed.Expected S)
      { s with core := { s.core with document := c.apply s.core.document } } J) :
    (write c >>= f).Leads (Deed.Expected S) s J := by
  intro l r s' hl hx
  rcases ends_write.mp hl with ⟨e, rfl, -⟩ | ⟨u, k, rfl, hk⟩
  · obtain ⟨hserved, -⟩ := hx.of_deed trivial
    cases (hserved : Except.error e = .ok ())
  · obtain ⟨-, -, hx⟩ := hx.of_deed trivial
    exact h k r s' hk hx

theorem leads_call {c : Call} {g : String → Fault} {f : Unit → Program β}
    (h : (f ()).Leads (Deed.Expected S) s J) :
    (call c g >>= f).Leads (Deed.Expected S) s J := by
  intro l r s' hl hx
  rcases ends_call.mp hl with ⟨e, rfl, -⟩ | ⟨u, k, rfl, hk⟩
  · obtain ⟨hserved, -⟩ := hx.of_deed trivial
    cases (hserved : Except.error e = .ok ())
  · obtain ⟨-, -, hx⟩ := hx.of_deed trivial
    exact h k r s' hk hx

theorem leads_ask {q : Question} {f : Bool → Program β}
    (h : (f (S.answer q)).Leads (Deed.Expected S) s J) :
    (ask q >>= f).Leads (Deed.Expected S) s J := by
  refine leads_request (fun _ => trivial) fun b hb _ => ?_
  obtain rfl : b = S.answer q := hb
  exact h

end Expected

end Program

end DeviceLock
