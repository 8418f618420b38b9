import DeviceLock.Text.Content

/-!
JSON values. A string keeps the pieces it was written with and a number its spelling, so that a
member nobody asks for is never decoded.
-/

namespace DeviceLock

namespace Json

inductive Piece
  | char (c : Char)
  /-- A UTF-16 unit, from an escape by number. -/
  | unit (n : Nat)
  | gap
  deriving DecidableEq, Repr

abbrev Pieces := List Piece

def Pieces.ofString (s : String) : Pieces := s.toList.map .char

def isHighSurrogate (n : Nat) : Bool := 0xD800 ≤ n && n < 0xDC00

def isLowSurrogate (n : Nat) : Bool := 0xDC00 ≤ n && n < 0xE000

def Pieces.chars? : Pieces → Option (List Char)
  | [] => some []
  | .char c :: ps => (chars? ps).map (c :: ·)
  | .gap :: _ => none
  | .unit n :: .unit m :: ps =>
    if isHighSurrogate n then
      if isLowSurrogate m then
        (chars? ps).map (Char.ofNat (0x10000 + (n - 0xD800) * 0x400 + (m - 0xDC00)) :: ·)
      else none
    else if isLowSurrogate n then none
    else (chars? (.unit m :: ps)).map (Char.ofNat n :: ·)
  | .unit n :: ps =>
    if isHighSurrogate n || isLowSurrogate n then none
    else (chars? ps).map (Char.ofNat n :: ·)

def Pieces.text? (ps : Pieces) : Option String := ps.chars?.map String.ofList

/-- A number: its sign, its whole part, and the spelling of fraction and exponent. -/
structure Number where
  negative : Bool
  whole : Nat
  rest : List Char
  deriving DecidableEq, Repr

def Number.ofNat (n : Nat) : Number := ⟨false, n, []⟩

def Number.ofInt (n : Int) : Number := ⟨decide (n < 0), n.natAbs, []⟩

def Number.nat? (n : Number) : Option Nat :=
  if n.negative = false ∧ n.rest = [] then some n.whole else none

def Number.int? (n : Number) : Option Int :=
  if n.rest = [] then some (if n.negative then -(n.whole : Int) else n.whole) else none

end Json

inductive Json
  | null
  | bool (b : Bool)
  | number (n : Json.Number)
  | string (s : Json.Pieces)
  | array (items : List Json)
  | object (members : List (Json.Pieces × Json))

namespace Json

def text (s : String) : Json := .string (Pieces.ofString s)

def nat (n : Nat) : Json := .number (Number.ofNat n)

def int (n : Int) : Json := .number (Number.ofInt n)

def record (members : List (String × Json)) : Json :=
  .object (members.map fun (k, v) => (Pieces.ofString k, v))

def text? : Json → Option String
  | .string s => s.text?
  | _ => none

def bool? : Json → Option Bool
  | .bool b => some b
  | _ => none

def word? (bits : Nat) : Json → Option Nat
  | .number n => n.nat?.filter (· < Nat.pow 2 bits)
  | _ => none

def option? {α : Type} (read : Json → Option α) : Json → Option (Option α)
  | .null => some none
  | j => (read j).map some

def ofOption {α : Type} (write : α → Json) : Option α → Json
  | none => .null
  | some a => write a

end Json

end DeviceLock
