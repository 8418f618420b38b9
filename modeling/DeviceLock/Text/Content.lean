/-!
What a file holds, read as text: UTF-8 decoded as far as it goes, with a gap for every longest run
of octets that begins a character without ending it, and for every octet that begins none.
-/

namespace DeviceLock

/-- A text with gaps; `none` is a gap. -/
abbrev Content := List (Option Char)

namespace Content

def ofString (s : String) : Content := s.toList.map some

def text? : Content → Option String := fun c => (c.mapM id).map String.ofList

def shown (c : Content) : String := String.ofList (c.map (·.getD '\uFFFD'))

/-- A character of which some octets are still to come: how many, the range of the next one, and
the bits read so far. -/
structure Begun where
  missing : Nat
  low : Nat
  high : Nat
  bits : Nat

inductive First
  | char (c : Char)
  | begun (b : Begun)
  | gap

def First.ofOctet (b : Nat) : First :=
  if b < 0x80 then .char (Char.ofNat b)
  else if b < 0xC2 then .gap
  else if b < 0xE0 then .begun ⟨1, 0x80, 0xBF, b - 0xC0⟩
  else if b = 0xE0 then .begun ⟨2, 0xA0, 0xBF, 0⟩
  else if b = 0xED then .begun ⟨2, 0x80, 0x9F, 0xD⟩
  else if b < 0xF0 then .begun ⟨2, 0x80, 0xBF, b - 0xE0⟩
  else if b = 0xF0 then .begun ⟨3, 0x90, 0xBF, 0⟩
  else if b < 0xF4 then .begun ⟨3, 0x80, 0xBF, b - 0xF0⟩
  else if b = 0xF4 then .begun ⟨3, 0x80, 0x8F, 4⟩
  else .gap

def decode : Option Begun → List Nat → Content
  | none, [] => []
  | some _, [] => [none]
  | none, b :: bs =>
    match First.ofOctet b with
    | .char c => some c :: decode none bs
    | .begun p => decode (some p) bs
    | .gap => none :: decode none bs
  | some p, b :: bs =>
    if p.low ≤ b ∧ b ≤ p.high then
      let bits := p.bits * 64 + (b - 0x80)
      if p.missing = 1 then some (Char.ofNat bits) :: decode none bs
      else decode (some ⟨p.missing - 1, 0x80, 0xBF, bits⟩) bs
    else
      match First.ofOctet b with
      | .char c => none :: some c :: decode none bs
      | .begun q => none :: decode (some q) bs
      | .gap => none :: none :: decode none bs

def ofOctets (bs : List Nat) : Content := decode none bs

end Content

end DeviceLock
