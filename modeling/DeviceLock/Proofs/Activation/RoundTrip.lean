import DeviceLock.Activation.Json
import DeviceLock.Proofs.Config.RoundTrip
import DeviceLock.Proofs.Document.RoundTrip

namespace DeviceLock

namespace WorkId

theorem digit?_digitChar (d : Fin 16) : digit? (digitChar d) = some d := by
  revert d
  decide

theorem parsePlain_digits (w : WorkId) : parsePlain (w.digits.map digitChar) = some w := by
  have hdigits (ds : List (Fin 16)) : (ds.map digitChar).mapM digit? = some ds := by
    induction ds with
    | nil => rfl
    | cons d ds ih => simp [digit?_digitChar, ih]
  rw [parsePlain, hdigits]
  simp [ofDigits?, w.length_eq]

theorem parseGrouped_of_length {a b c d e : List Char} (ha : a.length = 8) (hb : b.length = 4)
    (hc : c.length = 4) (hd : d.length = 4) (he : e.length = 12) :
    parseGrouped (a ++ '-' :: b ++ '-' :: c ++ '-' :: d ++ '-' :: e) =
      parsePlain (a ++ b ++ c ++ d ++ e) := by
  have hshape : (a ++ '-' :: b ++ '-' :: c ++ '-' :: d ++ '-' :: e).length = 36 := by
    simp only [List.length_append, List.length_cons]
    omega
  have hdashes : ∀ i ∈ [8, 13, 18, 23],
      (a ++ '-' :: b ++ '-' :: c ++ '-' :: d ++ '-' :: e)[i]? = some '-' := by
    simp [List.getElem?_append, ha, hb, hc, hd]
  simp only [List.forall_mem_cons] at hdashes
  rw [parseGrouped, if_pos ⟨hshape, hdashes.1, hdashes.2.1, hdashes.2.2.1, hdashes.2.2.2.1⟩]
  congr 1
  simp (disch := omega) [List.drop_append, ha, hb, hc, hd, List.drop_eq_nil_of_le]

theorem parseChars_cons {c : Char} {cs : List Char} (hlength : (c :: cs).length ≠ 32)
    (hbrace : c ≠ '\x7b') (hurn : c ≠ 'u') : parseChars (c :: cs) = parseGrouped (c :: cs) := by
  rw [parseChars, if_neg hlength]
  · rintro rest ⟨rfl, rfl⟩
    exact hbrace rfl
  · rintro rest ⟨rfl, rfl⟩
    exact hurn rfl

theorem parse_print (w : WorkId) : parse w.print = some w := by
  have hlength : (w.digits.map digitChar).length = 32 := by simp [w.length_eq]
  have hplain := w.parsePlain_digits
  have hdigit : ∀ d : Fin 16, digitChar d ≠ '\x7b' ∧ digitChar d ≠ 'u' := by decide
  have hhead : ∀ c ∈ w.digits.map digitChar, c ≠ '\x7b' ∧ c ≠ 'u' :=
    List.forall_mem_map.2 fun d _ => hdigit d
  rw [parse, print, String.toList_ofList, printChars]
  generalize w.digits.map digitChar = ds at hlength hplain hhead ⊢
  have hparts : ds.take 8 ++ (ds.drop 8).take 4 ++ (ds.drop 12).take 4 ++
      (ds.drop 16).take 4 ++ ds.drop 20 = ds := by
    simp only [List.append_assoc]
    rw [← List.drop_drop (i := 4) (j := 16), List.take_append_drop,
      ← List.drop_drop (i := 4) (j := 12), List.take_append_drop,
      ← List.drop_drop (i := 4) (j := 8), List.take_append_drop, List.take_append_drop]
  have hgrouped := parseGrouped_of_length (a := ds.take 8) (b := (ds.drop 8).take 4)
    (c := (ds.drop 12).take 4) (d := (ds.drop 16).take 4) (e := ds.drop 20) (by simp [hlength])
    (by simp [hlength]) (by simp [hlength]) (by simp [hlength]) (by simp [hlength])
  rw [hparts, hplain] at hgrouped
  obtain ⟨c, cs, rfl⟩ := List.exists_cons_of_length_pos (by omega : 0 < ds.length)
  obtain ⟨hbrace, hurn⟩ := hhead c List.mem_cons_self
  rw [← hgrouped]
  simp only [List.append_assoc, List.cons_append]
  exact parseChars_cons (by simp at hlength ⊢; omega) hbrace hurn

end WorkId

theorem ActivationReport.ofJson?_reread {r : ActivationReport WorkId} (ha : r.attempts < 2 ^ 32)
    (ht : r.updatedAt.Regular) : ofJson? r.toJson.reread = some r := by
  have herror : Json.option? Json.text? (Json.ofOption Json.text r.lastError).reread =
      some r.lastError :=
    Json.option?_reread fun e _ => Json.text?_reread e
  have hwork : (Json.text r.work.print).reread.text?.bind WorkId.parse = some r.work := by
    rw [Json.text?_reread, Option.bind_some, WorkId.parse_print]
  rw [ofJson?, toJson, Json.fields?_reread]
  · simp only [Option.bind_eq_bind, Option.bind_some]
    rw [Json.required?_reread rfl, Json.required?_reread rfl, Json.required?_reread rfl,
      Json.required?_reread rfl, Json.optional?_reread rfl, Json.required?_reread rfl,
      hwork, Json.member?_reread, Json.member?_reread, Json.word?_nat ha, herror,
      Timestamp.ofJson?_reread ht]
    rfl
  · rfl
  · decide

theorem ActivationReport.whole_toJson (r : ActivationReport WorkId) : r.toJson.Whole := by
  have herror : (Json.ofOption Json.text r.lastError).Whole := by
    cases r.lastError <;> trivial
  exact ⟨trivial, trivial, trivial, rfl, herror, trivial, trivial⟩

theorem ActivationReport.bounded_of_ofJson? {j : Json} {r : ActivationReport WorkId}
    (h : ofJson? j = some r) : r.attempts < 2 ^ 32 ∧ r.updatedAt.Regular := by
  obtain ⟨fs, -, h⟩ := Option.bind_eq_some_iff.mp h
  obtain ⟨work, -, h⟩ := Option.bind_eq_some_iff.mp h
  obtain ⟨mode, -, h⟩ := Option.bind_eq_some_iff.mp h
  obtain ⟨status, -, h⟩ := Option.bind_eq_some_iff.mp h
  obtain ⟨attempts, hattempts, h⟩ := Option.bind_eq_some_iff.mp h
  obtain ⟨lastError, -, h⟩ := Option.bind_eq_some_iff.mp h
  obtain ⟨updatedAt, hupdated, h⟩ := Option.bind_eq_some_iff.mp h
  cases h
  constructor
  · obtain ⟨j, -, hword⟩ := Option.bind_eq_some_iff.mp hattempts
    unfold Json.word? at hword
    split at hword
    · exact of_decide_eq_true (Option.filter_eq_some_iff.mp hword).2
    · cases hword
  · obtain ⟨j, -, htime⟩ := Option.bind_eq_some_iff.mp hupdated
    obtain ⟨s, -, hparse⟩ := Option.bind_eq_some_iff.mp htime
    exact Timestamp.regular_of_parse hparse

end DeviceLock
