import DeviceLock.Policy
import DeviceLock.Proofs.Json.Record
import DeviceLock.Proofs.Text.Trim

namespace DeviceLock

namespace WireName

open Text

def Alike (c d : Char) : Prop := c.toUpper = d.toUpper ∨ c ∈ ['-', '_'] ∧ d ∈ ['-', '_']

def Spells (s name : String) : Prop :=
  ∃ pad core pad', s.toList = pad ++ core ++ pad' ∧ Blank pad ∧ Blank pad' ∧
    core.map foldChar = name.toList

def Respells (s t : String) : Prop :=
  ∃ pad core pad' new core' new', s.toList = pad ++ core ++ pad' ∧ Blank pad ∧ Blank pad' ∧
    t.toList = new ++ core' ++ new' ∧ Blank new ∧ Blank new' ∧ List.Forall₂ Alike core core'

theorem toUpper_cases (c : Char) :
    c.toUpper = c ∨ 97 ≤ c.toNat ∧ c.toNat ≤ 122 ∧ c.toUpper.toNat + 32 = c.toNat := by
  unfold Char.toUpper
  split
  · rename_i h
    right
    have hlo : 97 ≤ c.val.toNat := UInt32.le_iff_toNat_le.mp h.1
    have hhi : c.val.toNat ≤ 122 := UInt32.le_iff_toNat_le.mp h.2
    refine ⟨hlo, hhi, ?_⟩
    show (c.val + ('A'.val - 'a'.val)).toNat + 32 = c.val.toNat
    rw [UInt32.toNat_add, show ('A'.val - 'a'.val).toNat = 2 ^ 32 - 32 from rfl]
    omega
  · exact .inl rfl

theorem isBlank_foldChar (c : Char) : isBlank (foldChar c) = isBlank c := by
  unfold foldChar
  split
  · rename_i hc
    subst hc
    rfl
  rcases toUpper_cases c with h | ⟨hlo, hhi, h⟩
  · rw [h]
  · have hblank {d : Char} (hd : 65 ≤ d.toNat ∧ d.toNat ≤ 122) : isBlank d = false := by
      simp [isBlank]
      omega
    rw [hblank (by omega), hblank (by omega)]

theorem toUpper_eq_dash {c : Char} : c.toUpper = '-' ↔ c = '-' := by
  rcases toUpper_cases c with h | ⟨hlo, hhi, h⟩
  · rw [h]
  · constructor
    · intro hc
      have hdash : c.toUpper.toNat = 45 := congrArg Char.toNat hc
      omega
    · rintro rfl
      rfl

theorem Alike.foldChar {c d : Char} (h : Alike c d) : foldChar c = foldChar d := by
  rcases h with h | ⟨hc, hd⟩
  · have hdash : c = '-' ↔ d = '-' := by rw [← toUpper_eq_dash, h, toUpper_eq_dash]
    simp only [WireName.foldChar, hdash, h]
  · simp only [List.mem_cons, List.not_mem_nil, or_false] at hc hd
    rcases hc with rfl | rfl <;> rcases hd with rfl | rfl <;> rfl

theorem Respells.fold {s t : String} (h : Respells s t) : fold s = fold t := by
  obtain ⟨pad, core, pad', new, core', new', hs, hpad, hpad', ht, hnew, hnew', hcore⟩ := h
  have hmap : core.map WireName.foldChar = core'.map WireName.foldChar := by
    clear hs ht
    induction hcore with
    | nil => rfl
    | cons hc _ ih => rw [List.map_cons, List.map_cons, hc.foldChar, ih]
  rw [WireName.fold, WireName.fold, hs, ht, trim_padded hpad hpad', trim_padded hnew hnew',
    ← trim_map isBlank_foldChar, ← trim_map isBlank_foldChar, hmap]

section

variable {α : Type} [WireName α]

def Canonical (α : Type) [WireName α] : Prop :=
  ∀ a : α, ∀ c ∈ (name a).toList, foldChar c = c ∧ isBlank c = false

/-- The texts that are read as members are the spellings of their names. -/
structure ReadsNames (α : Type) [WireName α] : Prop where
  accepts : ∀ (s : String) (a : α), parse s = .ok a ↔ Spells s (name a)
  unique : ∀ (s : String) (a b : α), Spells s (name a) → Spells s (name b) → a = b
  reads_name : ∀ a : α, parse (name a) = .ok a
  respelled : ∀ s t : String, Respells s t → ∀ a : α, parse s = .ok a ↔ parse t = .ok a
  rejects : ∀ (s : String) (e : Unknown), (parse s : Except Unknown α) = .error e ↔
    e = ⟨kind α, s⟩ ∧ ∀ a : α, ¬ Spells s (name a)

theorem ofName?_eq_some_iff [LawfulWireName α] {s : String} {a : α} :
    ofName? s = some a ↔ name a = s := by
  constructor
  · intro h
    have hname := List.find?_some h
    exact eq_of_beq hname
  · rintro rfl
    exact LawfulWireName.ofName?_name a

theorem parse_eq_ok_iff [LawfulWireName α] {s : String} {a : α} :
    parse s = .ok a ↔ name a = fold s := by
  rw [← ofName?_eq_some_iff, parse]
  split
  · rename_i b hb
    rw [hb, Except.ok.injEq, Option.some.injEq]
  · rename_i hb
    simp [hb]

theorem Canonical.map_foldChar (h : Canonical α) (a : α) :
    (name a).toList.map foldChar = (name a).toList :=
  (List.map_congr_left fun c hc => (h a c hc).1).trans (List.map_id _)

theorem Canonical.name_eq_fold_iff (h : Canonical α) {s : String} {a : α} :
    name a = fold s ↔ Spells s (name a) := by
  constructor
  · intro hname
    obtain ⟨pad, pad', hpad, hpad', hs⟩ := exists_trim s.toList
    refine ⟨pad, trim s.toList, pad', hs, hpad, hpad', ?_⟩
    rw [hname, fold, String.toList_ofList]
  · rintro ⟨pad, core, pad', hs, hpad, hpad', hcore⟩
    have hsolid : ∀ c ∈ core, isBlank c = false := by
      intro c hc
      rw [← isBlank_foldChar]
      exact (h a _ (hcore ▸ List.mem_map_of_mem hc)).2
    rw [fold, hs, trim_padded hpad hpad', trim_eq_self hsolid, hcore, String.ofList_toList]

theorem Canonical.readsNames [LawfulWireName α] (h : Canonical α) : ReadsNames α where
  accepts := fun s a => parse_eq_ok_iff.trans h.name_eq_fold_iff
  unique := fun s a b ha hb => by
    have hname : name a = name b :=
      (h.name_eq_fold_iff.mpr ha).trans (h.name_eq_fold_iff.mpr hb).symm
    rw [← ofName?_eq_some_iff, LawfulWireName.ofName?_name] at hname
    exact (Option.some.inj hname).symm
  reads_name := fun a => by
    refine parse_eq_ok_iff.mpr (h.name_eq_fold_iff.mpr ⟨[], _, [], ?_, ?_, ?_, h.map_foldChar a⟩)
    · simp
    · simp [Blank]
    · simp [Blank]
  respelled := fun s t hst a => by rw [parse_eq_ok_iff, parse_eq_ok_iff, hst.fold]
  rejects := fun s e => by
    simp only [← h.name_eq_fold_iff, ← ofName?_eq_some_iff, parse]
    cases (ofName? (fold s) : Option α) with
    | some a => simp
    | none => simp [eq_comm]

end

theorem wire_names_read :
    ReadsNames ProvisionState ∧ ReadsNames ProvisionEvent ∧ ReadsNames DeviceState ∧
      ReadsNames LockMode ∧ ReadsNames FinalizationState ∧ ReadsNames FinalizationEvent := by
  have hcanonical {α : Type} [WireName α] [LawfulWireName α]
      (h : ∀ a : α, ((name a).toList.all fun c => foldChar c = c ∧ isBlank c = false) = true) :
      ReadsNames α := by
    refine Canonical.readsNames fun a c hc => ?_
    simpa using List.all_eq_true.mp (h a) c hc
  refine ⟨hcanonical ?_, hcanonical ?_, hcanonical ?_, hcanonical ?_, hcanonical ?_,
    hcanonical ?_⟩ <;> intro a <;> cases a <;> decide

end WireName

end DeviceLock
