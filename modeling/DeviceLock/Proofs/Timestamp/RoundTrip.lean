import DeviceLock.Timestamp.Printer
import DeviceLock.Timestamp.Reader
import Mathlib.Data.List.TakeWhile
import Mathlib.Data.Nat.Digits.Defs

namespace DeviceLock.Timestamp

open Text

/-- Nanoseconds run past a thousand million only in the last second of a minute. -/
def Regular (t : Timestamp) : Prop := t.clock.nano < 1000000000 ∨ t.clock.second % 60 = 59

instance (t : Timestamp) : Decidable t.Regular := inferInstanceAs (Decidable (_ ∨ _))

section Digits

variable {c : Char} {ds s : List Char} {n width : Nat}

theorem isDigit_iff : isDigit c = true ↔ 48 ≤ c.toNat ∧ c.toNat ≤ 57 := by
  simp only [isDigit, Bool.and_eq_true, decide_eq_true_eq]
  exact Iff.rfl

theorem isBlank_of_isDigit (h : isDigit c = true) : isBlank c = false := by
  rw [isDigit_iff] at h
  simp only [isBlank, Bool.or_eq_false_iff, Bool.and_eq_false_iff, decide_eq_false_iff_not,
    beq_eq_false_iff_ne]
  omega

theorem isDigit_padded : ∀ c ∈ padded width n, isDigit c = true := by
  intro c hc
  rcases List.mem_append.mp hc with hc | hc
  · rw [List.eq_of_mem_replicate hc]
    rfl
  · have h := Nat.isDigit_of_mem_toDigits (by decide) (by decide) hc
    rw [Char.isDigit_iff_toNat] at h
    exact isDigit_iff.mpr h

theorem length_padded (hw : 0 < width) (h : n < 10 ^ width) : (padded width n).length = width := by
  have hlen := (Nat.length_toDigits_le_iff (by decide) hw).mpr h
  simp only [padded, List.length_append, List.length_replicate]
  omega

theorem padded_ne_nil (width n : Nat) : padded width n ≠ [] := by
  simp [padded, Nat.toDigits_ne_nil]

theorem digitsValue_eq : digitsValue ds = Nat.ofDigitChars 10 ds 0 := by
  simp [digitsValue, Nat.ofDigitChars_eq_foldl, Nat.mul_comm]

theorem digitsValue_padded : digitsValue (padded width n) = n := by
  rw [digitsValue_eq, padded, Nat.ofDigitChars_append, Nat.ofDigitChars_replicate_zero,
    Nat.mul_zero, Nat.ofDigitChars_ten_toDigits]

theorem digitsValue_lt (h : ∀ c ∈ ds, isDigit c = true) : digitsValue ds < 10 ^ ds.length := by
  rw [digitsValue_eq]
  induction ds with
  | nil => decide
  | cons c ds ih =>
    obtain ⟨hc, hds⟩ := List.forall_mem_cons.mp h
    have hc := (isDigit_iff.mp hc).2
    have hrest := ih hds
    rw [Nat.ofDigitChars_cons, Nat.ofDigitChars_eq_ofDigitChars_zero, List.length_cons, pow_succ]
    have hfirst : 10 ^ ds.length * (10 * 0 + (c.toNat - '0'.toNat)) ≤ 10 ^ ds.length * 9 :=
      Nat.mul_le_mul_left _ (by simp; omega)
    omega

theorem spanDigits_append (hds : ∀ c ∈ ds, isDigit c = true) (hc : isDigit c = false) :
    spanDigits (ds ++ c :: s) = (ds, c :: s) := by
  simp [spanDigits, List.takeWhile_append_of_pos hds, List.dropWhile_append_of_pos hds, hc]

theorem spanUpTo_append (hds : ∀ c ∈ ds, isDigit c = true) (hlen : ds.length = width) :
    spanUpTo width (ds ++ s) = (ds, s) := by
  have htake : (ds ++ s).take width = ds := by
    rw [← hlen]
    exact List.take_left
  simp [spanUpTo, htake, List.takeWhile_eq_self_iff.mpr hds]

theorem spanUpTo_append_cons (hds : ∀ c ∈ ds, isDigit c = true) (hlen : ds.length ≤ width)
    (hc : isDigit c = false) : spanUpTo width (ds ++ c :: s) = (ds, c :: s) := by
  have hrest : ((c :: s).take (width - ds.length)).takeWhile isDigit = [] := by
    cases width - ds.length with
    | zero => rfl
    | succ n => simp [hc]
  simp [spanUpTo, List.take_append, List.take_of_length_le hlen, List.takeWhile_append_of_pos hds,
    hrest]

theorem spanUpTo_isDigit (width : Nat) (s : List Char) :
    ∀ c ∈ (spanUpTo width s).1, isDigit c = true :=
  fun _ => List.mem_takeWhile_imp

theorem length_spanUpTo (width : Nat) (s : List Char) : (spanUpTo width s).1.length ≤ width :=
  (List.takeWhile_prefix _).length_le.trans (List.length_take_le _ _)

theorem toNumber_of_ne_nil (h : ds ≠ []) : toNumber (ds, s) = some (digitsValue ds, s) := by
  cases ds with
  | nil => exact absurd rfl h
  | cons c ds => rfl

theorem trimStart_padded : trimStart (padded width n ++ s) = padded width n ++ s := by
  obtain ⟨c, ds, h⟩ := List.exists_cons_of_ne_nil (padded_ne_nil width n)
  have hc := isBlank_of_isDigit (isDigit_padded c (h ▸ List.mem_cons_self))
  simp [h, trimStart, hc]

theorem readNumber_padded (hw : 0 < width) (h : n < 10 ^ width) :
    readNumber width (padded width n ++ s) = some (n, s) := by
  rw [readNumber, trimStart_padded, spanUpTo_append isDigit_padded (length_padded hw h),
    toNumber_of_ne_nil (padded_ne_nil _ _), digitsValue_padded]

end Digits

theorem readYear_printYear {y : Int} {c : Char} {s : List Char} (hc : isDigit c = false) :
    readYear (printYear y ++ c :: s) = some (y, c :: s) := by
  have hspan (n : Nat) : toNumber (spanDigits (padded 4 n ++ c :: s)) = some (n, c :: s) := by
    rw [spanDigits_append isDigit_padded hc, toNumber_of_ne_nil (padded_ne_nil _ _),
      digitsValue_padded]
  unfold printYear
  split
  · next h =>
    have hn := Int.toNat_of_nonneg h.1
    have hspan : toNumber (spanUpTo 4 (padded 4 y.toNat ++ c :: s)) = some (y.toNat, c :: s) := by
      rw [spanUpTo_append isDigit_padded (length_padded (by decide) (by omega)),
        toNumber_of_ne_nil (padded_ne_nil _ _), digitsValue_padded]
    obtain ⟨d, ds, hcons⟩ := List.exists_cons_of_ne_nil (padded_ne_nil 4 y.toNat)
    have hd := isDigit_iff.mp (isDigit_padded d (hcons ▸ List.mem_cons_self))
    rw [readYear, trimStart_padded]
    -- A digit is no sign.
    split
    · next he =>
      rw [hcons] at he
      cases he
      exact absurd hd (by decide)
    · next he =>
      rw [hcons] at he
      cases he
      exact absurd hd (by decide)
    · simp only [hspan, Option.map_some, hn]
  · next h =>
    split
    · next hneg =>
      have hn : -(y.natAbs : Int) = y := by omega
      show (toNumber (spanDigits (padded 4 y.natAbs ++ c :: s))).map _ = _
      simp only [hspan, Option.map_some, hn]
    · next hneg =>
      have hn : (y.natAbs : Int) = y := by omega
      show (toNumber (spanDigits (padded 4 y.natAbs ++ c :: s))).map _ = _
      simp only [hspan, Option.map_some, hn]

theorem readMark_cons {c : Char} {s : List Char} (h : isBlank c = false) :
    readMark c (c :: s) = some s := by
  simp [readMark, trimStart, h]

theorem readFraction_printFraction {n : Nat} (h : n < 1000000000) :
    readFraction (printFraction n ++ ['Z']) = some (n, ['Z']) := by
  have hread {width m : Nat} (hw : 0 < width ∧ width ≤ 9) (hm : m < 10 ^ width)
      (hn : m * 10 ^ (9 - width) = n) :
      readFraction ('.' :: padded width m ++ ['Z']) = some (n, ['Z']) := by
    have hlen := length_padded hw.1 hm
    have hspan : spanUpTo 9 (padded width m ++ ['Z']) = (padded width m, ['Z']) :=
      spanUpTo_append_cons isDigit_padded (hlen.trans_le hw.2) rfl
    simp only [List.cons_append, readFraction, hspan]
    split
    · next he =>
      exact absurd (Prod.mk.inj he).1 (padded_ne_nil _ _)
    · next he =>
      obtain ⟨rfl, rfl⟩ := Prod.mk.inj he
      rw [digitsValue_padded, hlen]
      exact congrArg some (Prod.ext hn rfl)
  unfold printFraction
  split
  · next h0 =>
    subst h0
    rfl
  · split
    · exact hread (by decide) (by omega) (by omega)
    · split
      · exact hread (by decide) (by omega) (by omega)
      · exact hread (by decide) (by omega) (by omega)

structure Parts where
  year : Int
  month : Nat
  day : Nat
  hour : Nat
  minute : Nat
  second : Nat
  fraction : Nat
  offset : Int

def Parts.timestamp? (p : Parts) : Option Timestamp := do
  let date ← Date.ofParts? p.year p.month p.day
  if 24 ≤ p.hour ∨ 60 ≤ p.minute ∨ 61 ≤ p.second ∨ 86400 ≤ p.offset.natAbs then none
  else if p.second = 60 then
    ofLocal? date (p.hour * 3600 + p.minute * 60 + 59) (p.fraction + 1000000000) p.offset
  else ofLocal? date (p.hour * 3600 + p.minute * 60 + p.second) p.fraction p.offset

inductive Reads : List Char → Parts → Prop
  | parts {s₁ s₂ s₃ s₄ s₅ s₆ s₇ s₈ s₉ s₁₀ s₁₁ s₁₂ s₁₃ s₁₄ : List Char} {year offset : Int}
      {month day hour minute second fraction : Nat}
      (hyear : readYear s₁ = some (year, s₂)) (hmonthMark : readMark '-' s₂ = some s₃)
      (hmonth : readNumber 2 s₃ = some (month, s₄)) (hdayMark : readMark '-' s₄ = some s₅)
      (hday : readNumber 2 s₅ = some (day, s₆)) (hseparator : readSeparator s₆ = some s₇)
      (hhour : readNumber 2 s₇ = some (hour, s₈)) (hminuteMark : readMark ':' s₈ = some s₉)
      (hminute : readNumber 2 s₉ = some (minute, s₁₀))
      (hsecondMark : readMark ':' s₁₀ = some s₁₁)
      (hsecond : readNumber 2 s₁₁ = some (second, s₁₂))
      (hfraction : readFraction s₁₂ = some (fraction, s₁₃))
      (hoffset : readOffset (trimStart s₁₃) = some (offset, s₁₄)) (hend : trimStart s₁₄ = []) :
      Reads s₁ ⟨year, month, day, hour, minute, second, fraction, offset⟩

theorem parseChars_eq_some {s : List Char} {t : Timestamp} :
    parseChars s = some t ↔ ∃ p, Reads s p ∧ p.timestamp? = some t := by
  constructor
  · intro h
    obtain ⟨⟨year, s₂⟩, hyear, h⟩ := Option.bind_eq_some_iff.mp h
    obtain ⟨s₃, hmonthMark, h⟩ := Option.bind_eq_some_iff.mp h
    obtain ⟨⟨month, s₄⟩, hmonth, h⟩ := Option.bind_eq_some_iff.mp h
    obtain ⟨s₅, hdayMark, h⟩ := Option.bind_eq_some_iff.mp h
    obtain ⟨⟨day, s₆⟩, hday, h⟩ := Option.bind_eq_some_iff.mp h
    obtain ⟨s₇, hseparator, h⟩ := Option.bind_eq_some_iff.mp h
    obtain ⟨⟨hour, s₈⟩, hhour, h⟩ := Option.bind_eq_some_iff.mp h
    obtain ⟨s₉, hminuteMark, h⟩ := Option.bind_eq_some_iff.mp h
    obtain ⟨⟨minute, s₁₀⟩, hminute, h⟩ := Option.bind_eq_some_iff.mp h
    obtain ⟨s₁₁, hsecondMark, h⟩ := Option.bind_eq_some_iff.mp h
    obtain ⟨⟨second, s₁₂⟩, hsecond, h⟩ := Option.bind_eq_some_iff.mp h
    obtain ⟨⟨fraction, s₁₃⟩, hfraction, h⟩ := Option.bind_eq_some_iff.mp h
    obtain ⟨⟨offset, s₁₄⟩, hoffset, h⟩ := Option.bind_eq_some_iff.mp h
    by_cases hend : trimStart s₁₄ = []
    · refine ⟨_, .parts hyear hmonthMark hmonth hdayMark hday hseparator hhour hminuteMark hminute
        hsecondMark hsecond hfraction hoffset hend, ?_⟩
      simpa [Parts.timestamp?, hend] using h
    · simp [hend] at h
  · rintro ⟨p, ⟨hyear, hmonthMark, hmonth, hdayMark, hday, hseparator, hhour, hminuteMark, hminute,
      hsecondMark, hsecond, hfraction, hoffset, hend⟩, h⟩
    refine Option.bind_eq_some_iff.mpr ⟨_, hyear, ?_⟩
    refine Option.bind_eq_some_iff.mpr ⟨_, hmonthMark, ?_⟩
    refine Option.bind_eq_some_iff.mpr ⟨_, hmonth, ?_⟩
    refine Option.bind_eq_some_iff.mpr ⟨_, hdayMark, ?_⟩
    refine Option.bind_eq_some_iff.mpr ⟨_, hday, ?_⟩
    refine Option.bind_eq_some_iff.mpr ⟨_, hseparator, ?_⟩
    refine Option.bind_eq_some_iff.mpr ⟨_, hhour, ?_⟩
    refine Option.bind_eq_some_iff.mpr ⟨_, hminuteMark, ?_⟩
    refine Option.bind_eq_some_iff.mpr ⟨_, hminute, ?_⟩
    refine Option.bind_eq_some_iff.mpr ⟨_, hsecondMark, ?_⟩
    refine Option.bind_eq_some_iff.mpr ⟨_, hsecond, ?_⟩
    refine Option.bind_eq_some_iff.mpr ⟨_, hfraction, ?_⟩
    refine Option.bind_eq_some_iff.mpr ⟨_, hoffset, ?_⟩
    simpa [Parts.timestamp?, hend] using h

theorem ofLocal?_zero (t : Timestamp) :
    ofLocal? t.date t.clock.second t.clock.nano 0 = some t := by
  have hs := t.clock.second_lt
  have hsecond : ((t.clock.second : Int) % 86400).toNat = t.clock.second := by omega
  have hparts : Clock.ofParts? t.clock.second t.clock.nano = some t.clock := by
    simp [Clock.ofParts?, t.clock.second_lt, t.clock.nano_lt]
  have hneg : ¬ (t.clock.second : Int) < 0 := by omega
  have hover : ¬ (86400 : Int) ≤ t.clock.second := by omega
  simp [ofLocal?, hsecond, hparts, hneg, hover]

def parts (t : Timestamp) : Parts where
  year := t.date.year
  month := t.date.month
  day := t.date.day
  hour := t.clock.second / 3600
  minute := t.clock.second / 60 % 60
  second := t.clock.second % 60 + t.clock.nano / 1000000000
  fraction := t.clock.nano % 1000000000
  offset := 0

theorem month_day_lt (d : Date) : d.month < 10 ^ 2 ∧ d.day < 10 ^ 2 := by
  have h := d.valid
  simp only [isDate, Bool.and_eq_true, decide_eq_true_eq] at h
  have hdays : daysIn d.year d.month ≤ 31 := by
    unfold daysIn
    split <;> [split <;> decide; decide; decide; decide; decide; decide]
  omega

theorem reads_print (t : Timestamp) : Reads t.print.toList t.parts := by
  have hs := t.clock.second_lt
  have hn := t.clock.nano_lt
  obtain ⟨hmonth, hday⟩ := month_day_lt t.date
  have h2 : 0 < 2 := by decide
  simp only [print, String.toList_ofList, printDate, printClock, List.append_assoc,
    List.cons_append]
  exact .parts (readYear_printYear rfl) (readMark_cons rfl) (readNumber_padded h2 hmonth)
    (readMark_cons rfl) (readNumber_padded h2 hday) rfl (readNumber_padded h2 (by omega))
    (readMark_cons rfl) (readNumber_padded h2 (by omega)) (readMark_cons rfl)
    (readNumber_padded h2 (by omega)) (readFraction_printFraction (by omega)) rfl rfl

theorem timestamp?_parts {t : Timestamp} (h : t.Regular) : t.parts.timestamp? = some t := by
  have hs := t.clock.second_lt
  have hn := t.clock.nano_lt
  have hdate : Date.ofParts? t.parts.year t.parts.month t.parts.day = some t.date :=
    t.date.ofParts?_eq
  have hhour : t.parts.hour = t.clock.second / 3600 := rfl
  have hminute : t.parts.minute = t.clock.second / 60 % 60 := rfl
  have hsecond : t.parts.second = t.clock.second % 60 + t.clock.nano / 1000000000 := rfl
  have hfraction : t.parts.fraction = t.clock.nano % 1000000000 := rfl
  have hoffset : t.parts.offset = 0 := rfl
  have hrange : ¬ (24 ≤ t.parts.hour ∨ 60 ≤ t.parts.minute ∨ 61 ≤ t.parts.second ∨
      86400 ≤ t.parts.offset.natAbs) := by
    omega
  rw [Parts.timestamp?, hdate, Option.bind_eq_bind, Option.bind_some, if_neg hrange, hoffset,
    ← ofLocal?_zero t]
  split
  · next hleap =>
    congr 1
    · omega
    · omega
  · next hleap =>
    unfold Regular at h
    congr 1
    · omega
    · omega

theorem fraction_lt {s rest : List Char} {n : Nat} (h : readFraction s = some (n, rest)) :
    n < 1000000000 := by
  unfold readFraction at h
  split at h
  · next s =>
    have hdigits := digitsValue_lt (spanUpTo_isDigit 9 s)
    have hlen := length_spanUpTo 9 s
    split at h
    · cases h
    · next ds rest _ hspan =>
      rw [hspan] at hdigits hlen
      dsimp only at hdigits hlen
      cases h
      calc digitsValue ds * 10 ^ (9 - ds.length)
        _ < 10 ^ ds.length * 10 ^ (9 - ds.length) :=
          Nat.mul_lt_mul_of_pos_right hdigits (Nat.pow_pos (by decide))
        _ = 1000000000 := by rw [← pow_add, Nat.add_sub_cancel' hlen]; rfl
  · cases h
    decide

theorem offset_minutes {s rest : List Char} {n : Int} (h : readOffset s = some (n, rest)) :
    n % 60 = 0 := by
  have hnumeric {s : List Char} (h : readOffset.numeric s = some (n, rest)) : n % 60 = 0 := by
    obtain ⟨⟨negative, s₁⟩, -, h⟩ := Option.bind_eq_some_iff.mp h
    obtain ⟨⟨hours, s₂⟩, -, h⟩ := Option.bind_eq_some_iff.mp h
    obtain ⟨⟨minutes, s₃⟩, -, h⟩ := Option.bind_eq_some_iff.mp h
    by_cases hm : 60 ≤ minutes
    · simp [hm] at h
    · simp only [hm, if_false, Option.pure_def, Option.some.injEq, Prod.mk.injEq] at h
      obtain ⟨rfl, -⟩ := h
      split <;> omega
  unfold readOffset at h
  split at h
  · cases h
    rfl
  · cases h
    rfl
  · split at h
    · split at h
      · cases h
        rfl
      · exact hnumeric h
    · exact hnumeric h

theorem ofLocal?_clock {d : Date} {second nano : Nat} {offset : Int} {t : Timestamp}
    (h : ofLocal? d second nano offset = some t) :
    t.clock.second = ((second - offset) % 86400).toNat ∧ t.clock.nano = nano := by
  obtain ⟨clock, hclock, h⟩ := Option.bind_eq_some_iff.mp h
  have ht : t.clock = clock := by
    split at h
    · obtain ⟨d, -, h⟩ := Option.bind_eq_some_iff.mp h
      cases h
      rfl
    · split at h
      · obtain ⟨d, -, h⟩ := Option.bind_eq_some_iff.mp h
        cases h
        rfl
      · cases h
        rfl
  unfold Clock.ofParts? at hclock
  split at hclock
  · cases hclock
    rw [ht]
    exact ⟨rfl, rfl⟩
  · cases hclock

theorem regular_of_parse {s : String} {t : Timestamp} (h : parse s = some t) : t.Regular := by
  obtain ⟨p, hp, ht⟩ := parseChars_eq_some.mp h
  cases hp with
  | parts hyear hmonthMark hmonth hdayMark hday hseparator hhour hminuteMark hminute hsecondMark
      hsecond hfraction hoffset hend =>
    have hfraction := fraction_lt hfraction
    have hoffset := offset_minutes hoffset
    obtain ⟨d, -, ht⟩ := Option.bind_eq_some_iff.mp ht
    dsimp only at ht
    split at ht
    · cases ht
    · split at ht
      · have ht := ofLocal?_clock ht
        right
        omega
      · have ht := ofLocal?_clock ht
        left
        omega

theorem parse_print_iff {t : Timestamp} : parse t.print = some t ↔ t.Regular :=
  ⟨regular_of_parse, fun h => parseChars_eq_some.mpr ⟨_, reads_print t, timestamp?_parts h⟩⟩

def wholeSecond (t : Timestamp) : Timestamp where
  date := t.date
  clock :=
    { t.clock with
      nano := t.clock.nano / 1000000000 * 1000000000
      nano_lt := lt_of_le_of_lt (Nat.div_mul_le_self _ _) t.clock.nano_lt }

theorem display_eq_print (t : Timestamp) : t.display = t.wholeSecond.print := by
  have hseconds : t.clock.nano / 1000000000 * 1000000000 / 1000000000 =
      t.clock.nano / 1000000000 := by omega
  have hfraction : t.clock.nano / 1000000000 * 1000000000 % 1000000000 = 0 := by omega
  simp [display, print, wholeSecond, printClock, printFraction, hseconds, hfraction]

theorem Regular.wholeSecond {t : Timestamp} (h : t.Regular) : t.wholeSecond.Regular := by
  unfold Regular Timestamp.wholeSecond at *
  dsimp only
  omega

theorem parse_display {t : Timestamp} (h : t.Regular) : parse t.display = some t.wholeSecond := by
  rw [display_eq_print, parse_print_iff.mpr h.wholeSecond]

end DeviceLock.Timestamp
