namespace DeviceLock.Yaml

def isAllowed (c : Char) : Bool :=
  let n := c.toNat
  n == 9 || n == 0xA || n == 0xD || (0x20 ≤ n && n ≤ 0x7E) || n == 0x85 ||
    (0xA0 ≤ n && n ≤ 0xD7FF) || (0xE000 ≤ n && n ≤ 0xFFFD) || 0x10000 ≤ n

def isSpace (c : Char) : Bool := c = ' ' || c = '\t'

def isBreak (c : Char) : Bool :=
  c = '\n' || c = '\r' || c = '\u0085' || c = '\u2028' || c = '\u2029'

def isWord (c : Char) : Bool := c.isAlphanum || c = '_' || c = '-'

/-- What stands for a line break inside a scalar. -/
def keptBreak (c : Char) : Char := if c = '\u2028' || c = '\u2029' then c else '\n'

def atGap : List Char → Bool
  | [] => true
  | c :: _ => isSpace c || isBreak c

def atLineEnd : List Char → Bool
  | [] => true
  | c :: _ => isBreak c

structure Mark where
  index : Nat
  line : Nat
  column : Nat
  deriving DecidableEq, Repr

namespace Mark

def start : Mark := ⟨0, 0, 0⟩

def beyond (m : Mark) (n : Nat) : Mark := ⟨m.index + n, m.line, m.column + n⟩

def overBreak (m : Mark) (n : Nat) : Mark := ⟨m.index + n, m.line + 1, 0⟩

end Mark

structure Place where
  mark : Mark
  rest : List Char
  deriving DecidableEq, Repr

namespace Place

def skip (p : Place) (n : Nat) : Place := ⟨p.mark.beyond n, p.rest.drop n⟩

def skipBreak (p : Place) : Place :=
  match p.rest with
  | '\r' :: '\n' :: rest => ⟨p.mark.overBreak 2, rest⟩
  | c :: rest => if isBreak c then ⟨p.mark.overBreak 1, rest⟩ else p
  | [] => p

def span (p : Place) (kind : Char → Bool) : List Char × Place :=
  let run := p.rest.takeWhile kind
  (run, p.skip run.length)

def skipWhile (p : Place) (kind : Char → Bool) : Place := (p.span kind).2

def skipToLineEnd (p : Place) : Place :=
  let p := p.skipWhile isSpace
  match p.rest with
  | '#' :: _ => p.skipWhile fun c => !isBreak c
  | _ => p

def atIndicator (p : Place) : Bool :=
  p.mark.column == 0 &&
    match p.rest with
    | '-' :: '-' :: '-' :: rest => atGap rest
    | '.' :: '.' :: '.' :: rest => atGap rest
    | _ => false

end Place

end DeviceLock.Yaml
