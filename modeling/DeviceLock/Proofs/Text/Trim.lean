import DeviceLock.Text.Blank
import Mathlib.Data.List.TakeWhile

namespace DeviceLock

namespace Text

def Blank (s : List Char) : Prop := ∀ c ∈ s, isBlank c = true

variable {pad pad' s : List Char}

theorem exists_trimStart (s : List Char) : ∃ pad, Blank pad ∧ s = pad ++ trimStart s :=
  ⟨s.takeWhile isBlank, fun _ hc => List.mem_takeWhile_imp hc, List.takeWhile_append_dropWhile.symm⟩

theorem trimEnd_eq (s : List Char) : trimEnd s = (trimStart s.reverse).reverse := rfl

theorem exists_trimEnd (s : List Char) : ∃ pad, Blank pad ∧ s = trimEnd s ++ pad := by
  obtain ⟨pad, hpad, hs⟩ := exists_trimStart s.reverse
  refine ⟨pad.reverse, fun c hc => hpad c (List.mem_reverse.mp hc), ?_⟩
  rw [trimEnd_eq, ← List.reverse_append, ← hs, List.reverse_reverse]

theorem exists_trim (s : List Char) :
    ∃ pad pad', Blank pad ∧ Blank pad' ∧ s = pad ++ trim s ++ pad' := by
  obtain ⟨pad, hpad, hs⟩ := exists_trimStart s
  obtain ⟨pad', hpad', hs'⟩ := exists_trimEnd (trimStart s)
  refine ⟨pad, pad', hpad, hpad', ?_⟩
  rw [trim, List.append_assoc, ← hs', ← hs]

theorem trim_padded (h : Blank pad) (h' : Blank pad') : trim (pad ++ s ++ pad') = trim s := by
  have hend : trimEnd (trimStart (s ++ pad')) = trimEnd (trimStart s) := by
    unfold trimStart
    rw [List.dropWhile_append]
    split
    · rename_i hs
      have hpad : pad'.dropWhile isBlank = [] := List.dropWhile_eq_nil_iff.mpr h'
      rw [hpad, List.isEmpty_iff.mp hs]
    · exact trimEnd_append_of_blank h'
  rw [trim, List.append_assoc, trimStart_append_of_blank h, hend, trim]

theorem trim_eq_nil : trim s = [] ↔ Blank s := by
  constructor
  · intro h
    obtain ⟨pad, pad', hpad, hpad', hs⟩ := exists_trim s
    rw [hs, h, List.append_nil]
    exact List.forall_mem_append.mpr ⟨hpad, hpad'⟩
  · intro h
    have hnil : Blank [] := fun _ hc => absurd hc List.not_mem_nil
    simpa [trim, trimStart, trimEnd] using trim_padded (s := []) h hnil

theorem trim_eq_self (h : ∀ c ∈ s, isBlank c = false) : trim s = s := by
  have hstart {l : List Char} (hl : ∀ c ∈ l, isBlank c = false) : trimStart l = l := by
    cases l with
    | nil => rfl
    | cons c l => simp [trimStart, hl c List.mem_cons_self]
  rw [trim, hstart h, trimEnd_eq, hstart (fun c hc => h c (List.mem_reverse.mp hc)),
    List.reverse_reverse]

theorem trim_map {f : Char → Char} (hf : ∀ c, isBlank (f c) = isBlank c) (s : List Char) :
    trim (s.map f) = (trim s).map f := by
  have hstart (l : List Char) : trimStart (l.map f) = (trimStart l).map f := by
    have hcomp : isBlank ∘ f = isBlank := funext hf
    rw [trimStart, List.dropWhile_map, hcomp, trimStart]
  rw [trim, hstart, trimEnd_eq, ← List.map_reverse, hstart, ← List.map_reverse, ← trimEnd_eq, trim]

end Text

end DeviceLock
