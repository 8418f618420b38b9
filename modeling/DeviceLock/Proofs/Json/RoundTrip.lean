import DeviceLock.Json.Reader
import DeviceLock.Json.Printer
import Mathlib.Data.List.TakeWhile
import Mathlib.Data.Nat.Digits.Defs

/-!
Values survive being printed and read back. `Spells` relates a value to its texts: what is printed
for its parts, with blanks between them. Such a text is read as the value (`parse_of_spells`), up to
the spelling of strings (`reread`), and both printers write one (`parse_print`, `parse_pretty`).
-/

namespace DeviceLock.Json

def Piece.reread : Piece → Piece
  | .char c =>
    if c.toNat < 0x20 ∧ c ∉ ['\x08', '\x0c', '\n', '\r', '\t'] then .unit c.toNat else .char c
  | .unit n => .unit (n % 65536)
  | .gap => .char '\uFFFD'

mutual

def reread : Json → Json
  | .string s => .string (s.map Piece.reread)
  | .array js => .array (rereadItems js)
  | .object ms => .object (rereadMembers ms)
  | j => j

def rereadItems : List Json → List Json
  | [] => []
  | j :: js => reread j :: rereadItems js

def rereadMembers : List (Pieces × Json) → List (Pieces × Json)
  | [] => []
  | (k, j) :: ms => (k.map Piece.reread, reread j) :: rereadMembers ms

end

mutual

def Whole : Json → Prop
  | .number n => n.rest = []
  | .array js => WholeItems js
  | .object ms => WholeMembers ms
  | _ => True

def WholeItems : List Json → Prop
  | [] => True
  | j :: js => Whole j ∧ WholeItems js

def WholeMembers : List (Pieces × Json) → Prop
  | [] => True
  | (_, j) :: ms => Whole j ∧ WholeMembers ms

end

def Blank (s : List Char) : Prop := ∀ c ∈ s, isSpace c = true

mutual

inductive Spells : Json → List Char → Prop
  | null : Spells .null "null".toList
  | bool (b : Bool) : Spells (.bool b) (if b then "true".toList else "false".toList)
  | number {n : Number} (h : n.rest = []) : Spells (.number n) (printNumber n)
  | string (s : Pieces) : Spells (.string s) (printString s)
  | emptyArray : Spells (.array []) ['[', ']']
  | array {j : Json} {js : List Json} {a s t : List Char} (ha : Blank a) (h : Spells j s)
      (ht : SpellsItems js t) : Spells (.array (j :: js)) ('[' :: (a ++ s ++ t))
  | emptyObject : Spells (.object []) ['\x7b', '\x7d']
  | object {k : Pieces} {j : Json} {ms : List (Pieces × Json)} {a b s t : List Char}
      (ha : Blank a) (hb : Blank b) (h : Spells j s) (ht : SpellsMembers ms t) :
      Spells (.object ((k, j) :: ms)) ('\x7b' :: (a ++ printString k ++ ':' :: b ++ s ++ t))

inductive SpellsItems : List Json → List Char → Prop
  | nil {a : List Char} (ha : Blank a) : SpellsItems [] (a ++ [']'])
  | cons {j : Json} {js : List Json} {a s t : List Char} (ha : Blank a) (h : Spells j s)
      (ht : SpellsItems js t) : SpellsItems (j :: js) (',' :: (a ++ s ++ t))

inductive SpellsMembers : List (Pieces × Json) → List Char → Prop
  | nil {a : List Char} (ha : Blank a) : SpellsMembers [] (a ++ ['\x7d'])
  | cons {k : Pieces} {j : Json} {ms : List (Pieces × Json)} {a b s t : List Char}
      (ha : Blank a) (hb : Blank b) (h : Spells j s) (ht : SpellsMembers ms t) :
      SpellsMembers ((k, j) :: ms) (',' :: (a ++ printString k ++ ':' :: b ++ s ++ t))

end

section Texts

variable {c : Char} {n d fuel : Nat} {rest s t : Content} {a : List Char}

theorem hexDigit?_digitChar (h : d < 16) : hexDigit? (Nat.digitChar d) = some d := by
  revert h
  revert d
  decide

theorem readString_unit :
    readString ((printPiece (.unit n)).map some ++ rest) = do
      let (ps, rest) ← readString rest
      return (.unit (n % 65536) :: ps, rest) := by
  have hdigit (k : Nat) : hexDigit? (Nat.digitChar (k % 16)) = some (k % 16) :=
    hexDigit?_digitChar (Nat.mod_lt _ (by decide))
  have hvalue : n / 4096 % 16 * 4096 + n / 256 % 16 * 256 + n / 16 % 16 * 16 + n % 16 =
      n % 65536 := by omega
  simp only [printPiece, unitDigits, List.map_cons, List.map_nil, List.cons_append,
    List.nil_append, readString, hdigit, Option.bind_eq_bind, Option.bind_some, hvalue]

theorem readString_visible (hc : 0x20 ≤ c.toNat) (hquote : c ≠ '"') (hbackslash : c ≠ '\\') :
    readString (some c :: rest) = do
      let (ps, rest) ← readString rest
      return (.char c :: ps, rest) := by
  have hcontrol : ¬ c.toNat < 0x20 := by omega
  rw [readString, if_neg hcontrol]
  · exact hquote
  · exact fun _ _ _ _ _ _ => hbackslash
  · exact fun _ _ _ => hbackslash
  · exact hbackslash

theorem readString_char :
    readString ((printPiece (.char c)).map some ++ rest) = do
      let (ps, rest) ← readString rest
      return ((Piece.char c).reread :: ps, rest) := by
  show readString ((printChar c).map some ++ rest) = _
  unfold printChar
  split
  case h_8 hquote hbackslash hb hf hn hr ht =>
    by_cases hc : c.toNat < 0x20
    · have hreread : (Piece.char c).reread = .unit (c.toNat % 65536) := by
        have hmem : c ∉ ['\x08', '\x0c', '\n', '\r', '\t'] := by
          simp only [List.mem_cons, List.not_mem_nil, or_false, not_or]
          exact ⟨hb, hf, hn, hr, ht⟩
        have hmod : c.toNat % 65536 = c.toNat := Nat.mod_eq_of_lt (by omega)
        rw [Piece.reread, if_pos ⟨hc, hmem⟩, hmod]
      rw [if_pos hc, hreread]
      exact readString_unit
    · have hreread : (Piece.char c).reread = .char c := by
        rw [Piece.reread, if_neg fun h => hc h.1]
      rw [if_neg hc, hreread]
      exact readString_visible (by omega) hquote hbackslash
  -- Every other escape is read back as the character it stands for.
  all_goals rfl

theorem readString_piece (p : Piece) :
    readString ((printPiece p).map some ++ rest) = do
      let (ps, rest) ← readString rest
      return (p.reread :: ps, rest) := by
  cases p with
  | char c => exact readString_char
  | unit n => exact readString_unit
  | gap => exact readString_visible (by decide) (by decide) (by decide)

theorem readString_pieces (ps : Pieces) :
    readString ((ps.flatMap printPiece).map some ++ some '"' :: rest) =
      some (ps.map Piece.reread, rest) := by
  induction ps with
  | nil => rfl
  | cons p ps ih =>
    rw [List.flatMap_cons, List.map_append, List.append_assoc, readString_piece, ih]
    rfl

theorem skipSpace_append (ha : Blank a) : skipSpace (a.map some ++ rest) = skipSpace rest := by
  induction a with
  | nil => rfl
  | cons c a ih =>
    obtain ⟨hc, ha⟩ := List.forall_mem_cons.mp ha
    rw [List.map_cons, List.cons_append, skipSpace, if_pos hc]
    exact ih ha

theorem skipSpace_of_not_isSpace (h : isSpace c = false) :
    skipSpace (some c :: rest) = some c :: rest := by
  rw [skipSpace, h]
  rfl

theorem blank_newline (depth : Nat) : Blank (newline depth) := by
  intro c hc
  rcases List.mem_cons.mp hc with rfl | hc
  · rfl
  · rw [List.eq_of_mem_replicate hc]
    rfl

end Texts

section Numbers

variable {rest : Content} {n : Nat} {ds : List Char}

def Stops (rest : Content) : Prop :=
  ∀ c s, rest = some c :: s → isDigit c = false ∧ c ≠ '.' ∧ c ≠ 'e' ∧ c ≠ 'E'

theorem stops_nil : Stops [] := by
  intro c s h
  cases h

theorem isDigit_iff {c : Char} : isDigit c = true ↔ c.isDigit = true := by
  simp only [isDigit, Bool.and_eq_true, decide_eq_true_eq, Char.isDigit_iff_toNat]
  exact Iff.rfl

theorem isDigit_of_mem_digits {c : Char} (h : c ∈ digits n) : isDigit c = true :=
  isDigit_iff.mpr (Nat.isDigit_of_mem_toDigits (by decide) (by decide) h)

theorem takeDigits_append (hds : ∀ c ∈ ds, isDigit c = true) (h : Stops rest) :
    takeDigits (ds.map some ++ rest) = (ds, rest) := by
  induction ds with
  | nil =>
    show takeDigits rest = ([], rest)
    unfold takeDigits
    split
    · rename_i c s
      rw [(h c s rfl).1]
      rfl
    · rfl
  | cons c ds ih =>
    obtain ⟨hc, hds⟩ := List.forall_mem_cons.mp hds
    rw [List.map_cons, List.cons_append, takeDigits, if_pos hc, ih hds]

theorem valueOf_digits : valueOf (digits n) = n := by
  have hvalue (ds : List Char) : valueOf ds = Nat.ofDigitChars 10 ds 0 := by
    simp [valueOf, Nat.ofDigitChars_eq_foldl, Nat.mul_comm]
  rw [hvalue, digits, Nat.ofDigitChars_ten_toDigits]

theorem digits_of_head? (h : (digits n).head? = some '0') : digits n = ['0'] := by
  have hzero : n = 0 := by
    induction n using Nat.strongRecOn with
    | ind n ih =>
      by_cases hn : n < 10
      · rw [digits, Nat.toDigits_of_lt_base hn] at h
        have hdigit : ∀ n < 10, [Nat.digitChar n].head? = some '0' → n = 0 := by decide
        exact hdigit n hn h
      · have hfirst : (digits (n / 10)).head? = some '0' := by
          rw [digits, Nat.toDigits_of_base_le (by decide) (by omega), List.head?_append] at h
          rw [digits]
          cases hds : (Nat.toDigits 10 (n / 10)).head? with
          | none => exact absurd (List.head?_eq_none_iff.mp hds) Nat.toDigits_ne_nil
          | some c =>
            rw [hds] at h
            exact h
        have := ih _ (by omega) hfirst
        omega
  subst hzero
  rfl

theorem readFraction_of_stops (h : Stops rest) : readFraction rest = some ([], rest) := by
  unfold readFraction
  split
  · exact absurd rfl (h _ _ rfl).2.1
  · rfl

theorem readExponent_of_stops (h : Stops rest) : readExponent rest = some ([], rest) := by
  unfold readExponent
  split
  · exact absurd rfl (h _ _ rfl).2.2.1
  · exact absurd rfl (h _ _ rfl).2.2.2
  · rfl

theorem readUnsigned_digits {negative : Bool} (h : Stops rest) :
    readUnsigned negative ((digits n).map some ++ rest) = some (⟨negative, n, []⟩, rest) := by
  have hshape : ¬ (digits n = [] ∨ ((digits n).head? = some '0' ∧ digits n ≠ ['0'])) := by
    rintro (hnil | ⟨hhead, hne⟩)
    · exact Nat.toDigits_ne_nil hnil
    · exact hne (digits_of_head? hhead)
  rw [readUnsigned, takeDigits_append (fun c => isDigit_of_mem_digits) h]
  simp only [if_neg hshape, readFraction_of_stops h, readExponent_of_stops h,
    Option.bind_eq_bind, Option.bind_some, valueOf_digits]
  rfl

theorem readNumber_of_isDigit {c : Char} (hc : isDigit c = true) :
    readNumber (some c :: rest) = readUnsigned false (some c :: rest) := by
  unfold readNumber
  split
  · rename_i heq
    obtain ⟨hdash, -⟩ := List.cons.inj heq
    cases hdash
    cases hc
  · rfl

theorem readNumber_print {n : Number} (hn : n.rest = []) (h : Stops rest) :
    readNumber ((printNumber n).map some ++ rest) = some (n, rest) := by
  obtain ⟨negative, whole, spelling⟩ := n
  obtain rfl : spelling = [] := hn
  cases negative with
  | true =>
    simp only [printNumber, if_true, List.append_nil, List.cons_append, List.nil_append,
      List.map_cons]
    exact readUnsigned_digits h
  | false =>
    simp only [printNumber, if_false, List.append_nil, List.nil_append, Bool.false_eq_true]
    rw [← readUnsigned_digits h]
    obtain ⟨c, ds, hds⟩ : ∃ c ds, digits whole = c :: ds :=
      List.exists_cons_of_ne_nil Nat.toDigits_ne_nil
    have hc : isDigit c = true := isDigit_of_mem_digits (hds ▸ List.mem_cons_self)
    rw [hds]
    exact readNumber_of_isDigit hc

end Numbers

section Values

variable {j : Json} {js : List Json} {k : Pieces} {ms : List (Pieces × Json)} {a b s t : List Char}
  {rest : Content} {fuel : Nat}

theorem skipSpace_skipSpace (s : Content) : skipSpace (skipSpace s) = skipSpace s := by
  fun_induction skipSpace s with
  | case1 c s hc ih => exact ih
  | case2 c s hc => simp [skipSpace, hc]
  | case3 s hs => rw [skipSpace]; exact hs

theorem readValue_skipSpace (s : Content) : readValue fuel (skipSpace s) = readValue fuel s := by
  cases fuel with
  | zero => rfl
  | succ fuel => rw [readValue, readValue, skipSpace_skipSpace]

theorem readValue_append (ha : Blank a) :
    readValue fuel (a.map some ++ rest) = readValue fuel rest := by
  rw [← readValue_skipSpace, skipSpace_append ha, readValue_skipSpace]

def readItemsAfter (fuel : Nat) (s : Content) : Option (List Json × Content) :=
  match skipSpace s with
  | some ',' :: s => readItems fuel s
  | some ']' :: s => some ([], s)
  | _ => none

def readMembersAfter (fuel : Nat) (s : Content) : Option (List (Pieces × Json) × Content) :=
  match skipSpace s with
  | some ',' :: s => readMembers fuel s
  | some '\x7d' :: s => some ([], s)
  | _ => none

theorem readItems_succ (s : Content) :
    readItems (fuel + 1) s = do
      let (j, s) ← readValue fuel s
      let (js, s) ← readItemsAfter fuel s
      return (j :: js, s) := by
  rw [readItems]
  cases readValue fuel s with
  | none => rfl
  | some r =>
    simp only [Option.bind_eq_bind, Option.bind_some, readItemsAfter]
    generalize skipSpace r.2 = t
    split
    · rfl
    · rfl
    · simp [*]

theorem readMembers_succ (ha : Blank a) (hb : Blank b) :
    readMembers (fuel + 1) ((a ++ printString k ++ ':' :: b).map some ++ rest) = do
      let (j, s) ← readValue fuel rest
      let (ms, s) ← readMembersAfter fuel s
      return ((k.map Piece.reread, j) :: ms, s) := by
  have htext : (a ++ printString k ++ ':' :: b).map some ++ rest =
      a.map some ++ (some '"' :: ((k.flatMap printPiece).map some ++
        some '"' :: some ':' :: (b.map some ++ rest))) := by
    simp [printString]
  rw [htext, readMembers, skipSpace_append ha]
  show (readString _).bind _ = _
  rw [readString_pieces, Option.bind_some]
  show (readValue fuel (b.map some ++ rest)).bind _ = _
  rw [readValue_append hb]
  cases readValue fuel rest with
  | none => rfl
  | some r =>
    simp only [Option.bind_eq_bind, Option.bind_some, readMembersAfter]
    generalize skipSpace r.2 = t
    split
    · rfl
    · rfl
    · simp [*]

theorem stops_of_blank (ha : Blank a) (h : Stops rest) : Stops (a.map some ++ rest) := by
  cases a with
  | nil => exact h
  | cons c a =>
    rintro d s ⟨⟩
    have hc : isSpace c = true := ha c List.mem_cons_self
    simp only [isSpace, Bool.or_eq_true, decide_eq_true_eq] at hc
    rcases hc with ((rfl | rfl) | rfl) | rfl <;> decide

theorem SpellsItems.stops (h : SpellsItems js t) : Stops (t.map some ++ rest) := by
  cases h with
  | nil ha =>
    rw [List.map_append, List.append_assoc]
    exact stops_of_blank ha (by rintro c s ⟨⟩; decide)
  | cons ha h ht => rintro c s ⟨⟩; decide

theorem SpellsMembers.stops (h : SpellsMembers ms t) : Stops (t.map some ++ rest) := by
  cases h with
  | nil ha =>
    rw [List.map_append, List.append_assoc]
    exact stops_of_blank ha (by rintro c s ⟨⟩; decide)
  | cons ha hb h ht => rintro c s ⟨⟩; decide

theorem printNumber_eq_cons (n : Number) :
    ∃ c cs, (c = '-' ∨ isDigit c = true) ∧ printNumber n = c :: cs := by
  cases hneg : n.negative with
  | true => exact ⟨'-', digits n.whole ++ n.rest, .inl rfl, by simp [printNumber, hneg]⟩
  | false =>
    obtain ⟨c, ds, hds⟩ : ∃ c ds, digits n.whole = c :: ds :=
      List.exists_cons_of_ne_nil Nat.toDigits_ne_nil
    exact ⟨c, ds ++ n.rest, .inr (isDigit_of_mem_digits (hds ▸ List.mem_cons_self)),
      by simp [printNumber, hneg, hds]⟩

theorem ne_of_number {c d : Char} (hc : c = '-' ∨ isDigit c = true) (hd : isDigit d = false)
    (hdash : d ≠ '-') : c ≠ d := by
  rintro rfl
  rcases hc with hc | hc
  · exact hdash hc
  · rw [hd] at hc
    cases hc

theorem Spells.exists_cons (h : Spells j s) :
    ∃ c cs, s = c :: cs ∧ isSpace c = false ∧ c ≠ ']' := by
  cases h with
  | null => exact ⟨_, _, rfl, rfl, by decide⟩
  | bool b => cases b <;> exact ⟨_, _, rfl, rfl, by decide⟩
  | @number n hn =>
    obtain ⟨c, cs, hc, htext⟩ := printNumber_eq_cons n
    have hne (d : Char) (hd : isDigit d = false) (hdash : d ≠ '-') : c ≠ d :=
      ne_of_number hc hd hdash
    refine ⟨c, cs, htext, ?_, hne _ (by decide) (by decide)⟩
    simp only [isSpace, Bool.or_eq_false_iff, decide_eq_false_iff_not]
    exact ⟨⟨⟨hne _ (by decide) (by decide), hne _ (by decide) (by decide)⟩,
      hne _ (by decide) (by decide)⟩, hne _ (by decide) (by decide)⟩
  | string s => exact ⟨_, _, rfl, rfl, by decide⟩
  | emptyArray => exact ⟨_, _, rfl, rfl, by decide⟩
  | array => exact ⟨_, _, rfl, rfl, by decide⟩
  | emptyObject => exact ⟨_, _, rfl, rfl, by decide⟩
  | object => exact ⟨_, _, rfl, rfl, by decide⟩

theorem Spells.length_pos (h : Spells j s) : 0 < s.length := by
  obtain ⟨c, cs, rfl, -⟩ := h.exists_cons
  exact Nat.succ_pos _

theorem SpellsItems.length_pos (h : SpellsItems js t) : 0 < t.length := by
  cases h <;> simp

theorem readValue_number {n : Number} (hn : n.rest = []) (h : Stops rest) :
    readValue (fuel + 1) ((printNumber n).map some ++ rest) = some (.number n, rest) := by
  have hread := readNumber_print hn h
  obtain ⟨c, cs, hc, htext⟩ := printNumber_eq_cons n
  obtain ⟨d, ds, hds, hspace, -⟩ := (Spells.number hn).exists_cons
  obtain ⟨rfl, rfl⟩ := List.cons.inj (htext.symm.trans hds)
  rw [htext, List.map_cons, List.cons_append] at hread ⊢
  rw [readValue, skipSpace_of_not_isSpace hspace]
  -- No other value begins with a digit or a sign.
  split
  all_goals first
    | (rename_i heq
       exact absurd (Option.some.inj (List.cons.inj heq).1)
         (ne_of_number hc (by decide) (by decide)))
    | (rw [hread]; rfl)

theorem readValue_array (h : Spells j s) (ha : Blank a) :
    readValue (fuel + 1) (some '[' :: ((a ++ s).map some ++ rest)) =
      (readItems fuel (s.map some ++ rest)).map fun r => (.array r.1, r.2) := by
  obtain ⟨c, cs, rfl, hspace, hne⟩ := h.exists_cons
  have hfirst : skipSpace ((a ++ c :: cs).map some ++ rest) = (c :: cs).map some ++ rest := by
    rw [List.map_append, List.append_assoc, skipSpace_append ha]
    exact skipSpace_of_not_isSpace hspace
  rw [readValue, skipSpace_of_not_isSpace rfl]
  simp only [hfirst]
  split
  · rename_i heq
    exact absurd (Option.some.inj (List.cons.inj heq).1) hne
  · rfl

theorem readValue_object {s t : Content} (h : skipSpace s = some '"' :: t) :
    readValue (fuel + 1) (some '\x7b' :: s) =
      (readMembers fuel s).map fun r => (.object r.1, r.2) := by
  have hmembers : readMembers fuel (skipSpace s) = readMembers fuel s := by
    cases fuel with
    | zero => rfl
    | succ fuel => rw [readMembers, readMembers, skipSpace_skipSpace]
  rw [readValue, skipSpace_of_not_isSpace rfl, ← hmembers]
  simp [h]

mutual

theorem readValue_of_spells {j : Json} {s : List Char} (h : Spells j s) {fuel : Nat}
    {rest : Content} (hfuel : s.length ≤ fuel) (hrest : Stops rest) :
    readValue fuel (s.map some ++ rest) = some (j.reread, rest) := by
  obtain ⟨fuel, rfl⟩ : ∃ n, fuel = n + 1 :=
    Nat.exists_eq_add_one.mpr (h.length_pos.trans_le hfuel)
  match h with
  | .null => rfl
  | .bool b => cases b <;> rfl
  | .number hn => exact readValue_number hn hrest
  | .string ps =>
    show (readString ((ps.flatMap printPiece ++ ['"']).map some ++ rest)).map _ = _
    rw [List.map_append, List.append_assoc]
    show (readString ((ps.flatMap printPiece).map some ++ some '"' :: rest)).map _ = _
    rw [readString_pieces]
    rfl
  | .emptyArray => rfl
  | @Spells.array j js a s t ha h ht =>
    have hs := h.length_pos
    have ht' := ht.length_pos
    simp only [List.length_cons, List.length_append] at hfuel
    obtain ⟨fuel, rfl⟩ : ∃ n, fuel = n + 1 := Nat.exists_eq_add_one.mpr (by omega)
    rw [List.map_cons, List.cons_append, List.map_append, List.append_assoc,
      readValue_array h ha, readItems_succ,
      readValue_of_spells h (by omega) ht.stops]
    show Option.map _ (Option.bind (readItemsAfter _ _) _) = _
    rw [readItemsAfter_of_spells ht (by omega)]
    rfl
  | .emptyObject => rfl
  | @Spells.object k j ms a b s t ha hb h ht =>
    simp only [List.length_cons, List.length_append] at hfuel
    obtain ⟨fuel, rfl⟩ : ∃ n, fuel = n + 1 := Nat.exists_eq_add_one.mpr (by omega)
    have hquote : ∃ u, skipSpace ((a ++ printString k ++ ':' :: b ++ s ++ t).map some ++ rest) =
        some '"' :: u := by
      simp only [List.map_append, List.append_assoc, skipSpace_append ha]
      exact ⟨_, skipSpace_of_not_isSpace rfl⟩
    obtain ⟨u, hquote⟩ := hquote
    rw [List.map_cons, List.cons_append, readValue_object hquote]
    rw [List.append_assoc, List.map_append, List.append_assoc, readMembers_succ ha hb,
      List.map_append, List.append_assoc,
      readValue_of_spells h (by omega) ht.stops]
    show Option.map _ (Option.bind (readMembersAfter _ _) _) = _
    rw [readMembersAfter_of_spells ht (by omega)]
    rfl

theorem readItemsAfter_of_spells {js : List Json} {t : List Char} (h : SpellsItems js t)
    {fuel : Nat} {rest : Content} (hfuel : t.length ≤ fuel) :
    readItemsAfter fuel (t.map some ++ rest) = some (rereadItems js, rest) := by
  match h with
  | .nil ha =>
    rw [readItemsAfter, List.map_append, List.append_assoc, skipSpace_append ha]
    rfl
  | @SpellsItems.cons j js a s t ha h ht =>
    simp only [List.length_cons, List.length_append] at hfuel
    obtain ⟨fuel, rfl⟩ : ∃ n, fuel = n + 1 := Nat.exists_eq_add_one.mpr (by omega)
    show readItems (fuel + 1) ((a ++ s ++ t).map some ++ rest) = _
    rw [readItems_succ, List.append_assoc, List.map_append, List.append_assoc, readValue_append ha,
      List.map_append, List.append_assoc, readValue_of_spells h (by omega) ht.stops]
    show Option.bind (readItemsAfter _ _) _ = _
    rw [readItemsAfter_of_spells ht (by omega)]
    rfl

theorem readMembersAfter_of_spells {ms : List (Pieces × Json)} {t : List Char}
    (h : SpellsMembers ms t) {fuel : Nat} {rest : Content} (hfuel : t.length ≤ fuel) :
    readMembersAfter fuel (t.map some ++ rest) = some (rereadMembers ms, rest) := by
  match h with
  | .nil ha =>
    rw [readMembersAfter, List.map_append, List.append_assoc, skipSpace_append ha]
    rfl
  | @SpellsMembers.cons k j ms a b s t ha hb h ht =>
    simp only [List.length_cons, List.length_append] at hfuel
    obtain ⟨fuel, rfl⟩ : ∃ n, fuel = n + 1 := Nat.exists_eq_add_one.mpr (by omega)
    show readMembers (fuel + 1) ((a ++ printString k ++ ':' :: b ++ s ++ t).map some ++ rest) = _
    rw [List.append_assoc, List.map_append, List.append_assoc, readMembers_succ ha hb,
      List.map_append, List.append_assoc, readValue_of_spells h (by omega) ht.stops]
    show Option.bind (readMembersAfter _ _) _ = _
    rw [readMembersAfter_of_spells ht (by omega)]
    rfl

end

theorem parse_of_spells (h : Spells j s) : parse (s.map some) = some j.reread := by
  have hread : readValue ((s.map some).length + 1) (s.map some ++ []) = some (j.reread, []) :=
    readValue_of_spells h (by simp) stops_nil
  rw [List.append_nil] at hread
  rw [parse, hread]
  rfl

end Values

section Printers

mutual

theorem spells_compact : (j : Json) → Whole j → Spells j (compact j)
  | .null, _ => .null
  | .bool true, _ => .bool true
  | .bool false, _ => .bool false
  | .number _, h => .number h
  | .string s, _ => .string s
  | .array [], _ => .emptyArray
  | .array (j :: js), h => by
    have := Spells.array (a := []) (by simp [Blank]) (spells_compact j h.1)
      (spells_compactItems js h.2)
    simpa [compact] using this
  | .object [], _ => .emptyObject
  | .object ((k, j) :: ms), h => by
    have := Spells.object (a := []) (b := []) (k := k) (by simp [Blank]) (by simp [Blank])
      (spells_compact j h.1) (spells_compactMembers ms h.2)
    simpa [compact] using this

theorem spells_compactItems : (js : List Json) → WholeItems js → SpellsItems js (compactItems js)
  | [], _ => .nil (a := []) (by simp [Blank])
  | j :: js, h => by
    have := SpellsItems.cons (a := []) (by simp [Blank]) (spells_compact j h.1)
      (spells_compactItems js h.2)
    simpa [compactItems] using this

theorem spells_compactMembers : (ms : List (Pieces × Json)) → WholeMembers ms →
    SpellsMembers ms (compactMembers ms)
  | [], _ => .nil (a := []) (by simp [Blank])
  | (k, j) :: ms, h => by
    have := SpellsMembers.cons (a := []) (b := []) (k := k) (by simp [Blank]) (by simp [Blank])
      (spells_compact j h.1) (spells_compactMembers ms h.2)
    simpa [compactMembers] using this

end

mutual

theorem spells_indented (depth : Nat) : (j : Json) → Whole j → Spells j (indented depth j)
  | .null, _ => .null
  | .bool true, _ => .bool true
  | .bool false, _ => .bool false
  | .number _, h => .number h
  | .string s, _ => .string s
  | .array [], _ => .emptyArray
  | .array (j :: js), h => by
    have := Spells.array (blank_newline (depth + 1)) (spells_indented (depth + 1) j h.1)
      (spells_indentedItems depth js h.2)
    simpa [indented] using this
  | .object [], _ => .emptyObject
  | .object ((k, j) :: ms), h => by
    have := Spells.object (b := [' ']) (k := k) (blank_newline (depth + 1)) (by simp [Blank, isSpace])
      (spells_indented (depth + 1) j h.1) (spells_indentedMembers depth ms h.2)
    simpa [indented] using this

theorem spells_indentedItems (depth : Nat) :
    (js : List Json) → WholeItems js → SpellsItems js (indentedItems depth js)
  | [], _ => .nil (blank_newline depth)
  | j :: js, h => by
    have := SpellsItems.cons (blank_newline (depth + 1)) (spells_indented (depth + 1) j h.1)
      (spells_indentedItems depth js h.2)
    simpa [indentedItems] using this

theorem spells_indentedMembers (depth : Nat) : (ms : List (Pieces × Json)) → WholeMembers ms →
    SpellsMembers ms (indentedMembers depth ms)
  | [], _ => .nil (blank_newline depth)
  | (k, j) :: ms, h => by
    have := SpellsMembers.cons (b := [' ']) (k := k) (blank_newline (depth + 1))
      (by simp [Blank, isSpace]) (spells_indented (depth + 1) j h.1)
      (spells_indentedMembers depth ms h.2)
    simpa [indentedMembers] using this

end

theorem parse_print {j : Json} (h : Whole j) : parse (Content.ofString j.print) = some j.reread := by
  rw [Content.ofString, print, String.toList_ofList]
  exact parse_of_spells (spells_compact j h)

theorem parse_pretty {j : Json} (h : Whole j) :
    parse (Content.ofString j.pretty) = some j.reread := by
  rw [Content.ofString, pretty, String.toList_ofList]
  exact parse_of_spells (spells_indented 0 j h)

end Printers

end DeviceLock.Json
