import DeviceLock.Config.Yaml
import Mathlib.Data.Nat.Digits.Defs

namespace DeviceLock.Yaml

def Spells (base : Nat) (s : List Char) (n : Nat) : Prop :=
  s ≠ [] ∧ ∃ ds : List Nat, s.map hexValue? = ds.map some ∧ (∀ d ∈ ds, d < base) ∧
    n = Nat.ofDigits base ds.reverse

def marks : List (Char × Nat) := [('x', 16), ('o', 8), ('b', 2)]

inductive Unsigned : List Char → Nat → Prop
  | decimal {s : List Char} {n : Nat} : Spells 10 s n → (s.head? = some '0' → s = ['0']) →
      Unsigned s n
  | marked {mark : Char} {base : Nat} {s : List Char} {n : Nat} : (mark, base) ∈ marks →
      Spells base s n → Unsigned ('0' :: mark :: s) n

inductive Numeral : List Char → Nat → Prop
  | bare {s : List Char} {n : Nat} : Unsigned s n → Numeral s n
  | plus {s : List Char} {n : Nat} : Unsigned s n → Numeral ('+' :: s) n

namespace Node

inductive Typed (type : String) : Node → String → Prop
  | plain (tag : Option String) (s : String) : Typed type (.scalar .plain tag s) s
  | literal (s : String) :
      Typed type (.scalar .literal (some ("tag:yaml.org,2002:" ++ type)) s) s

def IsWord (bits : Nat) (v : Node) (k : Nat) : Prop :=
  ∃ s, Typed "int" v s ∧ Numeral s.toList k ∧ k < 2 ^ bits

def IsFlag (v : Node) (b : Bool) : Prop :=
  ∃ s, Typed "bool" v s ∧
    s ∈ (if b then ["true", "True", "TRUE"] else ["false", "False", "FALSE"])

def nulls : List String := ["null", "Null", "NULL", "~"]

/-- A scalar names the place that its text says. A plain one without a tag names none if it is empty
or null, and one that is tagged as null has to be null. -/
inductive IsPlace : Node → Option String → Prop
  | nowhere {s : String} : s ∈ "" :: nulls → IsPlace (.scalar .plain none s) none
  | null {s : String} : s ∈ nulls →
      IsPlace (.scalar .plain (some "tag:yaml.org,2002:null") s) none
  | plain {s : String} : s ∉ "" :: nulls → IsPlace (.scalar .plain none s) (some s)
  | tagged {tag s : String} : tag ≠ "tag:yaml.org,2002:null" →
      IsPlace (.scalar .plain (some tag) s) (some s)
  | styled {style : Style} {tag : Option String} {s : String} : style ≠ .plain →
      IsPlace (.scalar style tag s) (some s)

variable {base bits k n : Nat} {s : List Char} {v : Node}

theorem foldlM_digits_eq_some (m : Nat) :
    s.foldlM (fun n c => do
      let d ← hexValue? c
      if d < base then some (n * base + d) else none) m = some n ↔
      ∃ ds : List Nat, s.map hexValue? = ds.map some ∧ (∀ d ∈ ds, d < base) ∧
        n = ds.foldl (fun n d => n * base + d) m := by
  induction s generalizing m with
  | nil =>
    simp only [List.foldlM_nil, Option.pure_def, Option.some.injEq, List.map_nil, List.nil_eq,
      List.map_eq_nil_iff]
    constructor
    · rintro rfl
      exact ⟨[], rfl, by simp, rfl⟩
    · rintro ⟨ds, rfl, -, rfl⟩
      rfl
  | cons c s ih =>
    simp only [List.foldlM_cons, Option.bind_eq_bind, List.map_cons]
    constructor
    · intro h
      obtain ⟨m', hm', hs⟩ := Option.bind_eq_some_iff.mp h
      obtain ⟨d, hd, hm'⟩ := Option.bind_eq_some_iff.mp hm'
      obtain ⟨hlt, hm'⟩ := Option.ite_none_right_eq_some.mp hm'
      obtain ⟨ds, hds, hlts, hn⟩ := (ih m').mp hs
      refine ⟨d :: ds, by rw [hd, hds, List.map_cons], List.forall_mem_cons.mpr ⟨hlt, hlts⟩, ?_⟩
      rw [List.foldl_cons, Option.some.inj hm', hn]
    · rintro ⟨_ | ⟨d, ds⟩, hds, hlts, hn⟩
      · simp at hds
      obtain ⟨hd, hds⟩ := List.cons.inj hds
      obtain ⟨hlt, hlts⟩ := List.forall_mem_cons.mp hlts
      rw [hd, Option.bind_some, if_pos hlt, Option.bind_some]
      exact (ih _).mpr ⟨ds, hds, hlts, hn⟩

theorem foldl_eq_ofDigits (ds : List Nat) :
    ds.foldl (fun n d => n * base + d) 0 = Nat.ofDigits base ds.reverse := by
  rw [Nat.ofDigits_eq_foldr, List.foldr_reverse]
  simp only [Nat.cast_id, Nat.add_comm, Nat.mul_comm]

theorem digits?_eq_some : digits? base s = some n ↔ Spells base s n := by
  unfold digits? Spells
  split
  · rename_i hs
    simp [hs]
  · rename_i hs
    simp only [foldlM_digits_eq_some, foldl_eq_ofDigits, ne_eq, hs, not_false_eq_true, true_and]

theorem isDigit_of_hexValue? {c : Char} {d : Nat} (h : hexValue? c = some d) (hd : d < 10) :
    c.isDigit = true := by
  unfold hexValue? at h
  split at h
  · rename_i hc
    exact Bool.and_eq_true_iff.mpr ⟨decide_eq_true hc.1, decide_eq_true hc.2⟩
  · split at h
    · rename_i hc
      have hlo : 97 ≤ c.toNat := UInt32.le_iff_toNat_le.mp hc.1
      have hval : c.toNat - 87 = d := Option.some.inj h
      omega
    · obtain ⟨hc, h⟩ := Option.ite_none_right_eq_some.mp h
      have hlo : 65 ≤ c.toNat := UInt32.le_iff_toNat_le.mp hc.1
      have hval : c.toNat - 55 = d := Option.some.inj h
      omega

theorem all_isDigit_of_spells (h : Spells 10 s n) : s.all Char.isDigit = true := by
  obtain ⟨-, ds, hds, hlt, -⟩ := h
  refine List.all_eq_true.mpr fun c hc => ?_
  have hmem : hexValue? c ∈ ds.map some := hds ▸ List.mem_map_of_mem hc
  obtain ⟨d, hd, hc⟩ := List.mem_map.mp hmem
  exact isDigit_of_hexValue? hc.symm (hlt d hd)

def unsigned? (s : List Char) : Option Nat :=
  match s with
  | '0' :: 'x' :: s => digits? 16 s
  | '0' :: 'o' :: s => digits? 8 s
  | '0' :: 'b' :: s => digits? 2 s
  | '0' :: c :: s => if (c :: s).all Char.isDigit then none else digits? 10 ('0' :: c :: s)
  | s => digits? 10 s

theorem natOfChars?_plus : natOfChars? ('+' :: s) = unsigned? s := rfl

theorem natOfChars?_bare (h : s.head? ≠ some '+') : natOfChars? s = unsigned? s := by
  unfold natOfChars?
  split
  · simp at h
  · rfl

theorem unsigned_marked {mark : Char} (hmark : (mark, base) ∈ marks) :
    Unsigned ('0' :: mark :: s) n ↔ Spells base s n := by
  refine ⟨?_, .marked hmark⟩
  rintro (⟨-, h⟩ | ⟨hmark', h⟩)
  · simp at h
  · simp only [marks, List.mem_cons, Prod.mk.injEq, List.not_mem_nil, or_false] at hmark hmark'
    grind

theorem unsigned?_eq_some : unsigned? s = some n ↔ Unsigned s n := by
  unfold unsigned?
  split
  · exact digits?_eq_some.trans (unsigned_marked (by decide)).symm
  · exact digits?_eq_some.trans (unsigned_marked (by decide)).symm
  · exact digits?_eq_some.trans (unsigned_marked (by decide)).symm
  · rename_i c s hx ho hb
    have hnone : ¬Unsigned ('0' :: c :: s) n := by
      rintro (⟨-, h⟩ | ⟨hmark, -⟩)
      · simp at h
      · simp [marks] at hmark
        grind
    simp only [hnone, iff_false, Option.ite_none_left_eq_some, not_and, digits?_eq_some]
    intro hdigits h
    exact hdigits (List.all_eq_true.mpr fun d hd =>
      List.all_eq_true.mp (all_isDigit_of_spells h) d (List.mem_cons_of_mem _ hd))
  · rename_i hx ho hb hzero
    rw [digits?_eq_some]
    constructor
    · refine fun h => .decimal h fun hs => ?_
      obtain ⟨_ | ⟨c, s⟩, rfl⟩ := List.head?_eq_some_iff.mp hs
      · rfl
      · exact (hzero c s rfl).elim
    · rintro (⟨h, -⟩ | ⟨-, -⟩)
      · exact h
      · exact (hzero _ _ rfl).elim

theorem natOfChars?_eq_some : natOfChars? s = some n ↔ Numeral s n := by
  have hplus (s : List Char) : ¬Unsigned ('+' :: s) n := by
    rintro (⟨⟨-, ds, hds, -⟩, -⟩)
    cases ds with
    | nil => simp at hds
    | cons d ds => exact absurd (List.cons.inj hds).1 (by simp [hexValue?])
  by_cases hs : s.head? = some '+'
  · obtain ⟨s, rfl⟩ := List.head?_eq_some_iff.mp hs
    rw [natOfChars?_plus, unsigned?_eq_some]
    refine ⟨.plus, ?_⟩
    rintro (h | h)
    · exact (hplus s h).elim
    · exact h
  · rw [natOfChars?_bare hs, unsigned?_eq_some]
    refine ⟨.bare, ?_⟩
    rintro (h | h)
    · exact h
    · simp at hs

theorem typed?_eq_some {type s : String} : v.typed? type = some s ↔ Typed type v s := by
  constructor
  · unfold typed?
    split
    · rintro ⟨⟩
      exact .plain _ _
    · simp only [Option.ite_none_right_eq_some, Option.some.injEq]
      rintro ⟨rfl, rfl⟩
      exact .literal _
    · rintro ⟨⟩
  · rintro ⟨⟩
    · rfl
    · exact if_pos rfl

theorem word?_eq_some : v.word? bits = some k ↔ v.IsWord bits k := by
  simp only [word?, IsWord, Option.bind_eq_bind, Option.filter_eq_some_iff, Option.bind_eq_some_iff,
    natOfChars?_eq_some, typed?_eq_some, decide_eq_true_eq]
  rfl

theorem IsWord.lt (h : v.IsWord bits k) : k < 2 ^ bits := by
  obtain ⟨-, -, -, hlt⟩ := h
  exact hlt

theorem word32?_eq_some {x : UInt32} :
    (v.word? 32).map UInt32.ofNat = some x ↔ v.IsWord 32 x.toNat := by
  simp only [Option.map_eq_some_iff, word?_eq_some]
  constructor
  · rintro ⟨k, hk, rfl⟩
    rwa [UInt32.toNat_ofNat', Nat.mod_eq_of_lt hk.lt]
  · exact fun h => ⟨x.toNat, h, UInt32.ofNat_toNat⟩

theorem word64?_eq_some {x : UInt64} :
    (v.word? 64).map UInt64.ofNat = some x ↔ v.IsWord 64 x.toNat := by
  simp only [Option.map_eq_some_iff, word?_eq_some]
  constructor
  · rintro ⟨k, hk, rfl⟩
    rwa [UInt64.toNat_ofNat', Nat.mod_eq_of_lt hk.lt]
  · exact fun h => ⟨x.toNat, h, UInt64.ofNat_toNat⟩

theorem bool?_eq_some {b : Bool} : v.bool? = some b ↔ v.IsFlag b := by
  unfold bool? IsFlag
  simp only [Option.bind_eq_bind, Option.bind_eq_some_iff, typed?_eq_some]
  refine exists_congr fun s => and_congr_right fun _ => ?_
  cases b <;> (split <;> simp_all)

theorem isNull_iff {s : String} : isNull s = true ↔ s ∈ nulls := by
  simp [isNull, nulls, or_assoc]

theorem optionalText?_eq_some {p : Option String} : v.optionalText? = some p ↔ v.IsPlace p := by
  have hempty {s : String} : (s = "" || isNull s) = true ↔ s ∈ "" :: nulls := by
    rw [Bool.or_eq_true, decide_eq_true_eq, isNull_iff, List.mem_cons]
  constructor
  · unfold optionalText?
    split
    · split
      · rename_i hs
        rintro ⟨⟩
        exact .nowhere (hempty.mp hs)
      · rename_i hs
        rintro ⟨⟩
        exact .plain (mt hempty.mpr hs)
    · split
      · rename_i htag
        subst htag
        simp only [Option.ite_none_right_eq_some, Option.some.injEq]
        rintro ⟨hs, rfl⟩
        exact .null (isNull_iff.mp hs)
      · rename_i htag
        rintro ⟨⟩
        exact .tagged htag
    · rename_i style tag _ huntagged htagged
      rintro ⟨⟩
      refine .styled ?_
      rintro rfl
      cases tag with
      | none => exact huntagged rfl rfl
      | some tag => exact htagged _ rfl rfl
    · rintro ⟨⟩
  · rintro (hs | hs | hs | htag | hstyle)
    · exact if_pos (hempty.mpr hs)
    · exact if_pos (isNull_iff.mpr hs)
    · exact if_neg (mt hempty.mp hs)
    · exact if_neg htag
    · unfold optionalText?
      split <;> simp_all

end Node

end DeviceLock.Yaml
