import DeviceLock.Activation.Report
import DeviceLock.Alarm
import DeviceLock.Finalization
import DeviceLock.Json.Record
import DeviceLock.Proofs.Json.RoundTrip

namespace DeviceLock

class LawfulWireName (α : Type) [WireName α] : Prop where
  ofName?_name : ∀ a : α, WireName.ofName? (WireName.name a) = some a

namespace Json

theorem Pieces.chars?_unit {n : Nat} (h : n < 0xD800) (ps : Pieces) :
    Pieces.chars? (.unit n :: ps) = (Pieces.chars? ps).map (Char.ofNat n :: ·) := by
  have hhigh : isHighSurrogate n = false := by
    simp only [isHighSurrogate, Bool.and_eq_false_iff, decide_eq_false_iff_not]
    omega
  have hlow : isLowSurrogate n = false := by
    simp only [isLowSurrogate, Bool.and_eq_false_iff, decide_eq_false_iff_not]
    omega
  cases ps with
  | nil => simp [chars?, hhigh, hlow]
  | cons p ps => cases p <;> simp [chars?, hhigh, hlow]

theorem Pieces.text?_reread (s : String) :
    Pieces.text? ((Pieces.ofString s).map Piece.reread) = some s := by
  have hchars (cs : List Char) :
      Pieces.chars? ((cs.map Piece.char).map Piece.reread) = some cs := by
    induction cs with
    | nil => rfl
    | cons c cs ih =>
      rw [List.map_cons, List.map_cons, Piece.reread]
      split
      · rename_i hc
        rw [chars?_unit (by omega), ih, Char.ofNat_toNat]
        rfl
      · rw [chars?, ih]
        rfl
  rw [text?, ofString, hchars, Option.map_some, String.ofList_toList]

theorem text?_reread (s : String) : (text s).reread.text? = some s := Pieces.text?_reread s

theorem fields?_reread {names : List String} {strict : Bool} {ms : List (String × Json)}
    (h : ms.map (·.1) = names) (hn : names.Nodup) :
    (record ms).reread.fields? names strict = some (ms.map fun m => (m.1, m.2.reread)) := by
  have hmembers (ms : List (String × Json)) :
      (rereadMembers (ms.map fun m => (Pieces.ofString m.1, m.2))).mapM
        (fun m => m.1.text?.map (·, m.2)) = some (ms.map fun m => (m.1, m.2.reread)) := by
    induction ms with
    | nil => rfl
    | cons m ms ih => simp [rereadMembers, Pieces.text?_reread, ih]
  have hknown : (ms.map fun m => (m.1, m.2.reread)).filter (fun m => names.contains m.1) =
      ms.map fun m => (m.1, m.2.reread) := by
    apply List.filter_eq_self.mpr
    intro m hm
    obtain ⟨k, hk, rfl⟩ := List.mem_map.mp hm
    rw [List.contains_iff_mem, ← h]
    exact List.mem_map_of_mem (f := (·.1)) hk
  have hnames : ((ms.map fun m => (m.1, m.2.reread)).map (·.1)) = names := by
    rw [← h, List.map_map]
    rfl
  rw [record, reread, fields?]
  refine (congrArg (Option.bind · _) (hmembers ms)).trans ?_
  rw [Option.bind_some, hknown]
  simp [hnames, hn]

section Fields

variable {α : Type} {ms : List (String × Json)} {name : String} {j : Json}

theorem lookup_reread (h : ms.lookup name = some j) :
    (ms.map fun m => (m.1, m.2.reread)).lookup name = some j.reread := by
  induction ms with
  | nil => cases h
  | cons m ms ih =>
    rw [List.lookup_cons] at h
    rw [List.map_cons, List.lookup_cons]
    cases hm : name == m.1 with
    | true =>
      rw [hm] at h
      cases h
      rfl
    | false =>
      rw [hm] at h
      exact ih h

theorem optional?_reread {default : α} {read : Json → Option α} (h : ms.lookup name = some j) :
    optional? (ms.map fun m => (m.1, m.2.reread)) name default read = read j.reread := by
  rw [optional?, lookup_reread h]

theorem required?_reread {read : Json → Option α} (h : ms.lookup name = some j) :
    required? (ms.map fun m => (m.1, m.2.reread)) name read = read j.reread := by
  rw [required?, lookup_reread h, Option.bind_some]

theorem option?_reread {read : Json → Option α} {print : α → String} {a : Option α}
    (h : ∀ x ∈ a, read (text (print x)).reread = some x) :
    option? read (ofOption (fun x => text (print x)) a).reread = some a := by
  cases a with
  | none => rfl
  | some x =>
    show (read (text (print x)).reread).map some = some (some x)
    rw [h x rfl, Option.map_some]

end Fields

theorem member?_reread {α : Type} [WireName α] [LawfulWireName α] (a : α) :
    member? (ofMember a).reread = some a := by
  show (Pieces.text? ((Pieces.ofString (WireName.name a)).map Piece.reread)).bind _ = _
  rw [Pieces.text?_reread, Option.bind_some, LawfulWireName.ofName?_name]

end Json

instance : LawfulWireName ProvisionState := ⟨fun s => by cases s <;> rfl⟩

instance : LawfulWireName ProvisionEvent := ⟨fun e => by cases e <;> rfl⟩

instance : LawfulWireName DeviceState := ⟨fun s => by cases s <;> rfl⟩

instance : LawfulWireName DeviceRequest := ⟨fun r => by cases r <;> rfl⟩

instance : LawfulWireName LockMode := ⟨fun m => by cases m <;> rfl⟩

instance : LawfulWireName PolicyStep := ⟨fun s => by cases s <;> rfl⟩

instance : LawfulWireName FinalizationState := ⟨fun s => by cases s <;> rfl⟩

instance : LawfulWireName FinalizationEvent := ⟨fun e => by cases e <;> rfl⟩

instance : LawfulWireName Alarm := ⟨fun a => by cases a <;> rfl⟩

instance : LawfulWireName ActivationStatus := ⟨fun s => by cases s <;> rfl⟩

end DeviceLock
