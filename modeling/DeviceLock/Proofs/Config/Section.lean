import DeviceLock.Config.Yaml
import Mathlib.Data.List.Perm.Basic

namespace DeviceLock

namespace Yaml.Node

def Entry (n : Node) (name : String) (v : Node) : Prop :=
  ∃ entries style tag, n = .mapping entries ∧ (.scalar style tag name, v) ∈ entries

def Named (entry : Node × Node) (e : String × Node) : Prop :=
  (∃ style tag, entry.1 = .scalar style tag e.1) ∧ entry.2 = e.2

inductive Section (known : List String) : Node → Prop
  | empty (tag : Option String) : Section known (.scalar .plain tag "")
  | mapping {entries : List (Node × Node)} {es : List (String × Node)} :
      List.Forall₂ Named entries es → (es.map Prod.fst).Nodup → (∀ e ∈ es, e.1 ∈ known) →
      Section known (.mapping entries)

def Fills {α : Type} (n : Node) (name : String) (default : α) (reads : Node → α → Prop) (x : α) :
    Prop :=
  (∀ v, n.Entry name v → reads v x) ∧ ((∀ v, ¬n.Entry name v) → x = default)

variable {α : Type} {known : List String} {name : String} {n v v' : Node}
  {entries : List (Node × Node)} {es : List (String × Node)}

theorem text?_eq_some {s : String} : n.text? = some s ↔ ∃ style tag, n = .scalar style tag s := by
  cases n <;> simp [text?]

theorem mapM_named :
    (entries.mapM fun (k, v) => k.text?.map (·, v)) = some es ↔ List.Forall₂ Named entries es := by
  induction entries generalizing es with
  | nil =>
    simp only [List.mapM_nil, Option.pure_def, Option.some.injEq, List.forall₂_nil_left_iff]
    exact eq_comm
  | cons entry entries ih =>
    simp only [List.mapM_cons, Option.bind_eq_bind, Option.bind_eq_some_iff,
      Option.map_eq_some_iff, text?_eq_some, ih, Option.pure_def, Option.some.injEq,
      List.forall₂_cons_left_iff]
    constructor
    · rintro ⟨_, ⟨name, hname, rfl⟩, es, hes, rfl⟩
      exact ⟨(name, _), es, ⟨hname, rfl⟩, hes, rfl⟩
    · rintro ⟨⟨name, v⟩, es, ⟨hname, rfl⟩, hes, rfl⟩
      exact ⟨_, ⟨name, hname, rfl⟩, es, hes, rfl⟩

theorem section?_eq_some :
    n.section? known = some es ↔ n.entries? = some es ∧ (∀ e ∈ es, e.1 ∈ known) ∧
      (es.map Prod.fst).Nodup := by
  simp only [section?, Option.bind_eq_bind, Option.bind_eq_some_iff, Option.ite_none_right_eq_some,
    Option.some.injEq, List.all_eq_true, List.contains_iff_mem, List.forall_mem_map]
  constructor
  · rintro ⟨es, hes, ⟨hknown, hnodup⟩, rfl⟩
    exact ⟨hes, hknown, hnodup⟩
  · rintro ⟨hes, hknown, hnodup⟩
    exact ⟨es, hes, ⟨hknown, hnodup⟩, rfl⟩

theorem entries?_eq_some :
    n.entries? = some es ↔ (∃ tag, n = .scalar .plain tag "") ∧ es = [] ∨
      ∃ entries, n = .mapping entries ∧ List.Forall₂ Named entries es := by
  unfold entries?
  split
  · simp [eq_comm]
  · simp [mapM_named]
  · rename_i hempty hmapping
    simp only [reduceCtorEq, false_iff, not_or, not_and, not_exists]
    refine ⟨fun ⟨tag, h⟩ => (hempty tag h).elim, fun entries h => (hmapping entries h).elim⟩

theorem exists_section?_eq_some : (∃ es, n.section? known = some es) ↔ n.Section known := by
  simp only [section?_eq_some, entries?_eq_some]
  constructor
  · rintro ⟨es, ⟨⟨tag, rfl⟩, -⟩ | ⟨entries, rfl, hes⟩, hknown, hnodup⟩
    · exact .empty tag
    · exact .mapping hes hnodup hknown
  · rintro (tag | ⟨hes, hnodup, hknown⟩)
    · exact ⟨[], .inl ⟨⟨tag, rfl⟩, rfl⟩, by simp, by simp⟩
    · exact ⟨_, .inr ⟨_, rfl, hes⟩, hknown, hnodup⟩

theorem mem_of_forall₂_named (h : List.Forall₂ Named entries es) :
    (name, v) ∈ es ↔ (mapping entries).Entry name v := by
  have hmem : (name, v) ∈ es ↔ ∃ style tag, (.scalar style tag name, v) ∈ entries := by
    induction h with
    | nil => simp
    | @cons entry e entries es hentry _ ih =>
      obtain ⟨key, v'⟩ := entry
      obtain ⟨name', v''⟩ := e
      obtain ⟨⟨style, tag, rfl⟩, hv⟩ := hentry
      obtain rfl : v' = v'' := hv
      simp only [List.mem_cons, ih, Prod.mk.injEq, scalar.injEq]
      grind
  rw [hmem]
  constructor
  · rintro ⟨style, tag, h⟩
    exact ⟨entries, style, tag, rfl, h⟩
  · rintro ⟨_, style, tag, ⟨⟩, h⟩
    exact ⟨style, tag, h⟩

theorem mem_section? (h : n.section? known = some es) : (name, v) ∈ es ↔ n.Entry name v := by
  rcases entries?_eq_some.mp (section?_eq_some.mp h).1 with ⟨⟨tag, rfl⟩, rfl⟩ | ⟨entries, rfl, hes⟩
  · simp [Entry]
  · exact mem_of_forall₂_named hes

theorem lookup_eq_some_iff_mem (h : (es.map Prod.fst).Nodup) :
    es.lookup name = some v ↔ (name, v) ∈ es := by
  induction es with
  | nil => simp
  | cons e es ih =>
    obtain ⟨name', v'⟩ := e
    obtain ⟨hnew, hnodup⟩ := List.nodup_cons.mp h
    rw [List.lookup_cons, List.mem_cons, Prod.mk.injEq]
    split
    · rename_i hname
      obtain rfl := eq_of_beq hname
      have habsent : (name, v) ∉ es := fun hv => hnew (List.mem_map.mpr ⟨_, hv, rfl⟩)
      simp [habsent, eq_comm]
    · rename_i hname
      simp [ih hnodup, beq_eq_false_iff_ne.mp hname]

theorem lookup_section? (h : n.section? known = some es) :
    es.lookup name = some v ↔ n.Entry name v := by
  rw [lookup_eq_some_iff_mem (section?_eq_some.mp h).2.2, mem_section? h]

theorem Section.unique (h : n.Section known) (hv : n.Entry name v) (hv' : n.Entry name v') :
    v = v' := by
  obtain ⟨es, hes⟩ := exists_section?_eq_some.mpr h
  rw [← lookup_section? hes] at hv hv'
  exact Option.some.inj (hv.symm.trans hv')

theorem field?_eq_some {default x : α} {read : Node → Option α} {reads : Node → α → Prop}
    (hes : n.section? known = some es) (hread : ∀ v x, read v = some x ↔ reads v x) :
    field? es name default read = some x ↔ n.Fills name default reads x := by
  unfold field? Fills
  simp only [← hread, ← lookup_section? hes]
  cases es.lookup name with
  | some v => simp
  | none => simp [eq_comm]

theorem bind_section?_eq_some {β : Type} {x : β} {f : List (String × Node) → Option β} {P : Prop}
    (h : ∀ es, n.section? known = some es → (f es = some x ↔ P)) :
    (n.section? known).bind f = some x ↔ n.Section known ∧ P := by
  rw [← exists_section?_eq_some, Option.bind_eq_some_iff]
  constructor
  · rintro ⟨es, hes, hx⟩
    exact ⟨⟨es, hes⟩, (h es hes).mp hx⟩
  · rintro ⟨⟨es, hes⟩, hx⟩
    exact ⟨es, hes, (h es hes).mpr hx⟩

inductive Permuted (R : Node → Node → Prop) : Node → Node → Prop
  | same (n : Node) : Permuted R n n
  | mapping {entries between entries' : List (Node × Node)} : entries.Perm between →
      List.Forall₂ (fun e e' => e.1 = e'.1 ∧ R e.2 e'.2) between entries' →
      Permuted R (.mapping entries) (.mapping entries')

/-- The same sections in another order, and in each the same fields in another order. -/
def Reordered : Node → Node → Prop := Permuted (Permuted Eq)

section

variable {R : Node → Node → Prop} {n' : Node} {entries' : List (Node × Node)}

theorem Permuted.symm (hR : ∀ v v', R v v' → R v' v) (h : Permuted R n n') : Permuted R n' n := by
  rcases h with _ | ⟨hperm, hrel⟩
  · exact .same n
  · have hback := hrel.imp fun e e' h => (⟨h.1.symm, hR _ _ h.2⟩ : e'.1 = e.1 ∧ R e'.2 e.2)
    obtain ⟨_, hperm', hrel'⟩ := (congrFun₂ List.forall₂_comp_perm_eq_perm_comp_forall₂ _ _).mp
      ⟨_, hback.flip, hperm.symm⟩
    exact .mapping hperm' hrel'

theorem Reordered.symm (h : Reordered n n') : Reordered n' n :=
  Permuted.symm (fun _ _ => Permuted.symm fun _ _ => Eq.symm) h

theorem exists_named_of_keys
    (h : List.Forall₂ (fun e e' : Node × Node => e.1 = e'.1 ∧ R e.2 e'.2) entries entries')
    (hes : List.Forall₂ Named entries es) :
    ∃ es', List.Forall₂ Named entries' es' ∧ es'.map Prod.fst = es.map Prod.fst := by
  induction h generalizing es with
  | nil =>
    cases hes
    exact ⟨[], .nil, rfl⟩
  | @cons entry entry' entries entries' hkey _ ih =>
    obtain _ | ⟨hnamed, hes⟩ := hes
    rename_i e es
    obtain ⟨es', hes', hnames⟩ := ih hes
    exact ⟨(e.1, entry'.2) :: es', .cons ⟨hkey.1 ▸ hnamed.1, rfl⟩ hes', by simp [hnames]⟩

theorem Permuted.section (h : Permuted R n n') (hn : n.Section known) : n'.Section known := by
  rcases h with _ | ⟨hperm, hrel⟩
  · exact hn
  · rcases hn with _ | ⟨hes, hnodup, hknown⟩
    obtain ⟨es', hes', hperm'⟩ := List.perm_comp_forall₂ hperm.symm hes
    obtain ⟨es'', hes'', hnames⟩ := exists_named_of_keys hrel hes'
    have hperm'' : (es''.map Prod.fst).Perm (List.map Prod.fst _) := hnames ▸ hperm'.map Prod.fst
    refine .mapping hes'' (hperm''.nodup_iff.mpr hnodup) fun e he => ?_
    obtain ⟨e', he', hname⟩ := List.mem_map.mp (hperm''.mem_iff.mp (List.mem_map_of_mem he))
    exact hname ▸ hknown e' he'

theorem exists_mem_of_values {key : Node}
    (h : List.Forall₂ (fun e e' : Node × Node => e.1 = e'.1 ∧ R e.2 e'.2) entries entries')
    (hv : (key, v') ∈ entries') : ∃ v, (key, v) ∈ entries ∧ R v v' := by
  induction h with
  | nil => exact absurd hv List.not_mem_nil
  | @cons entry entry' entries entries' hentry _ ih =>
    rcases List.mem_cons.mp hv with rfl | hv
    · obtain ⟨key', v⟩ := entry
      obtain rfl : key' = key := hentry.1
      exact ⟨v, List.mem_cons_self, hentry.2⟩
    · obtain ⟨v, hv, hR⟩ := ih hv
      exact ⟨v, List.mem_cons_of_mem _ hv, hR⟩

theorem Permuted.entry (hR : ∀ v, R v v) (h : Permuted R n n') (hv : n'.Entry name v') :
    ∃ v, n.Entry name v ∧ R v v' := by
  rcases h with _ | ⟨hperm, hrel⟩
  · exact ⟨v', hv, hR v'⟩
  · obtain ⟨_, style, tag, ⟨⟩, hmem⟩ := hv
    obtain ⟨v, hmem, hv⟩ := exists_mem_of_values hrel hmem
    exact ⟨v, ⟨_, style, tag, rfl, hperm.mem_iff.mpr hmem⟩, hv⟩

end

end Yaml.Node

end DeviceLock
