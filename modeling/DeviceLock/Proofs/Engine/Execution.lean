import DeviceLock.Proofs.Engine.Backlog
import DeviceLock.Proofs.Program.Serial
import Mathlib.Logic.Function.Basic

namespace DeviceLock

open Program

/-- What deeds act on, and what jobs hand on to the jobs after them. -/
@[ext]
structure Bench where
  config : EngineConfig
  core : Core
  value : (lane : Lane) → lane.Value

namespace Bench

def after (s : Bench) (d : Deed) : Bench := { s with core := d.effect s.core }

def settle (s : Bench) (lane : Lane) :
    Except Fault (lane.Value × Except Fault Reply) → Bench
  | .ok (v, _) => { s with value := Function.update s.value lane v }
  | .error _ => s

@[simp]
theorem settle_config (s : Bench) (lane : Lane)
    (r : Except Fault (lane.Value × Except Fault Reply)) : (s.settle lane r).config = s.config := by
  cases r <;> rfl

@[simp]
theorem settle_core (s : Bench) (lane : Lane)
    (r : Except Fault (lane.Value × Except Fault Reply)) : (s.settle lane r).core = s.core := by
  cases r <;> rfl

@[simp]
theorem settle_ok (s : Bench) (lane : Lane) (v : lane.Value) (x : Except Fault Reply) :
    (s.settle lane (.ok (v, x))).value lane = v := by
  simp [settle]

theorem settle_of_ne (s : Bench) {lane other : Lane} (h : other ≠ lane)
    (r : Except Fault (lane.Value × Except Fault Reply)) :
    (s.settle lane r).value other = s.value other := by
  cases r with
  | error e => rfl
  | ok v => exact Function.update_of_ne h _ _

end Bench

/-- The deeds can be done one after the other, with every job run while it is awaited, and are all
of a kind, those of the jobs as well. -/
inductive Executes (D : Deed → Prop) : Bench → List Deed → Bench → Prop
  | nil (s : Bench) : Executes D s [] s
  | deed {s s' : Bench} {d : Deed} {l : List Deed} (hw : d.Within .direct) (hD : D d)
      (hf : d.Fits s.core) (h : Executes D (s.after d) l s') : Executes D s (d :: l) s'
  | job {lane : Lane} {w : lane.Work} {t : Ticket} {k l : List Deed}
      {r : Except Fault (lane.Value × Except Fault Reply)} {s s₁ s' : Bench}
      (hp : Ends (lane.program s.config (s.value lane) w) k r) (hk : Executes D s k s₁)
      (h : Executes D (s₁.settle lane r) l s') :
      Executes D s (.act (.submit (lane.job w)) t :: .request (.await t) (r.bind Prod.snd) :: l) s'

namespace Executes

variable {D : Deed → Prop} {s s' : Bench} {d : Deed} {k l : List Deed}

theorem config (h : Executes D s l s') : s'.config = s.config := by
  induction h with
  | nil => rfl
  | deed _ _ _ _ ih => exact ih
  | job _ _ _ ihk ih => rw [ih, Bench.settle_config, ihk]

theorem of_nil (h : Executes D s [] s') : s' = s := by
  cases h
  rfl

theorem of_deed (h : Executes D s (d :: l) s') (hw : d.Within .direct) :
    D d ∧ d.Fits s.core ∧ Executes D (s.after d) l s' := by
  cases h with
  | deed _ hD hf h => exact ⟨hD, hf, h⟩
  | job => exact hw.elim

theorem of_job {lane : Lane} {w : lane.Work} {t : Ticket} {x : Except Fault Reply}
    (h : Executes D s (.act (.submit (lane.job w)) t :: .request (.await t) x :: l) s') :
    ∃ k r s₁, Ends (lane.program s.config (s.value lane) w) k r ∧ Executes D s k s₁ ∧
      x = r.bind Prod.snd ∧ Executes D (s₁.settle lane r) l s' := by
  generalize hj : lane.job w = j at h
  cases h with
  | deed hw => exact hw.elim
  | @job other v t k l r _ s₁ _ hp hk h =>
    have heq : other = lane := by
      cases other <;> cases lane <;> first | rfl | cases hj
    subst heq
    obtain rfl : w = v := by
      cases other <;> exact (by injection hj)
    exact ⟨k, r, s₁, hp, hk, rfl, h⟩

theorem append_inv (h : Executes D s (k ++ l) s') (hk : ∀ d ∈ k, d.Within .direct) :
    ∃ s₁, Executes D s k s₁ ∧ Executes D s₁ l s' := by
  induction k generalizing s with
  | nil => exact ⟨s, .nil s, h⟩
  | cons d k ih =>
    obtain ⟨hd, hk⟩ := List.forall_mem_cons.mp hk
    obtain ⟨hD, hf, h⟩ := h.of_deed hd
    obtain ⟨s₁, h₁, hl⟩ := ih h hk
    exact ⟨s₁, .deed hd hD hf h₁, hl⟩

theorem tells (h : Executes D s l s') (hl : ∀ d ∈ l, d.Within .direct) :
    s.core.Tells l s'.core ∧ s'.value = s.value ∧ ∀ d ∈ l, D d := by
  induction h with
  | nil s => exact ⟨.nil _, rfl, by simp⟩
  | deed _ hD hf _ ih =>
    obtain ⟨ht, hv, hall⟩ := ih (List.forall_mem_cons.mp hl).2
    exact ⟨.cons hf ht, hv, List.forall_mem_cons.mpr ⟨hD, hall⟩⟩
  | job => exact ((List.forall_mem_cons.mp hl).1).elim

end Executes

namespace Program

variable {α : Type} {D : Deed → Prop} {s : Bench} {K : Except Fault α → Bench → Prop}

def Leads (D : Deed → Prop) (p : Program α) (s : Bench) (K : Except Fault α → Bench → Prop) :
    Prop :=
  ∀ l r s', Ends p l r → Executes D s l s' → K r s'

theorem Leads.result {r : Except Fault α} (h : (done r).Leads D s K) : K r s :=
  h [] r s (.stay _) (.nil s)

theorem Leads.act {a : Act} {next : a.Answer → Program α} {x : a.Answer}
    (h : (act a next).Leads D s K) (hw : (Deed.act a x).Within .direct) (hD : D (.act a x))
    (hf : (Deed.act a x).Fits s.core) : (next x).Leads D (s.after (.act a x)) K :=
  fun _ r s' he hl => h _ r s' (.act x he) (.deed hw hD hf hl)

theorem Leads.wait {q : Request} {next : q.Answer → Program α} {x : q.Answer}
    (h : (wait q next).Leads D s K) (hw : (Deed.request q x).Within .direct)
    (hD : D (.request q x)) (hf : (Deed.request q x).Fits s.core) :
    (next x).Leads D (s.after (.request q x)) K :=
  fun _ r s' he hl => h _ r s' (.wait x he) (.deed hw hD hf hl)

theorem Leads.job {lane : Lane} {w : lane.Work} {t : Ticket}
    {next : Ticket → Program α} {rest : Except Fault Reply → Program α}
    (h : (Program.act (.submit (lane.job w)) next).Leads D s K)
    (hn : next t = .wait (.await t) rest) :
    (lane.program s.config (s.value lane) w).Leads D s fun r s₁ =>
      (rest (r.bind Prod.snd)).Leads D (s₁.settle lane r) K := by
  intro k r s₁ hk hks l r' s' hl hls
  refine h _ r' s' (.act t ?_) (.job hk hks hls)
  rw [hn]
  exact .wait _ hl

end Program

end DeviceLock
