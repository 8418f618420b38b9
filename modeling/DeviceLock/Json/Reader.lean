import DeviceLock.Json.Value

/-!
The reader of JSON texts. Values that are passed over need only be well formed, so strings are
split into pieces here and decoded by whoever wants their text.
-/

namespace DeviceLock.Json

def isSpace (c : Char) : Bool := c = ' ' || c = '\n' || c = '\t' || c = '\r'

def skipSpace : Content → Content
  | some c :: s => if isSpace c then skipSpace s else some c :: s
  | s => s

def expect : List Char → Content → Option Content
  | [], s => some s
  | c :: word, some d :: s => if c = d then expect word s else none
  | _ :: _, _ => none

def hexDigit? (c : Char) : Option Nat :=
  if '0' ≤ c ∧ c ≤ '9' then some (c.toNat - 48)
  else if 'a' ≤ c ∧ c ≤ 'f' then some (c.toNat - 87)
  else if 'A' ≤ c ∧ c ≤ 'F' then some (c.toNat - 55)
  else none

def escape? : Char → Option Char
  | '"' => some '"'
  | '\\' => some '\\'
  | '/' => some '/'
  | 'b' => some '\x08'
  | 'f' => some '\x0c'
  | 'n' => some '\n'
  | 'r' => some '\r'
  | 't' => some '\t'
  | _ => none

def readString : Content → Option (Pieces × Content)
  | [] => none
  | none :: s => do
    let (ps, rest) ← readString s
    return (.gap :: ps, rest)
  | some '"' :: s => some ([], s)
  | some '\\' :: some 'u' :: some a :: some b :: some c :: some d :: s => do
    let (a, b, c, d) := (← hexDigit? a, ← hexDigit? b, ← hexDigit? c, ← hexDigit? d)
    let (ps, rest) ← readString s
    return (.unit (a * 4096 + b * 256 + c * 16 + d) :: ps, rest)
  | some '\\' :: some e :: s => do
    let c ← escape? e
    let (ps, rest) ← readString s
    return (.char c :: ps, rest)
  | some '\\' :: _ => none
  | some c :: s =>
    if c.toNat < 0x20 then none
    else do
      let (ps, rest) ← readString s
      return (.char c :: ps, rest)

def isDigit (c : Char) : Bool := '0' ≤ c && c ≤ '9'

def takeDigits : Content → List Char × Content
  | some c :: s =>
    if isDigit c then
      let (ds, rest) := takeDigits s
      (c :: ds, rest)
    else ([], some c :: s)
  | s => ([], s)

def valueOf (ds : List Char) : Nat := ds.foldl (fun n d => n * 10 + (d.toNat - 48)) 0

def readFraction : Content → Option (List Char × Content)
  | some '.' :: s =>
    match takeDigits s with
    | ([], _) => none
    | (ds, rest) => some ('.' :: ds, rest)
  | s => some ([], s)

def readExponent : Content → Option (List Char × Content)
  | some 'e' :: s => digitsAfter ['e'] s
  | some 'E' :: s => digitsAfter ['E'] s
  | s => some ([], s)
where
  digitsAfter (mark : List Char) : Content → Option (List Char × Content)
    | some '+' :: s => close (mark ++ ['+']) (takeDigits s)
    | some '-' :: s => close (mark ++ ['-']) (takeDigits s)
    | s => close mark (takeDigits s)
  close (mark : List Char) : List Char × Content → Option (List Char × Content)
    | ([], _) => none
    | (ds, rest) => some (mark ++ ds, rest)

def readUnsigned (negative : Bool) (s : Content) : Option (Number × Content) := do
  let (ds, s) := takeDigits s
  if ds = [] ∨ (ds.head? = some '0' ∧ ds ≠ ['0']) then none
  let (fraction, s) ← readFraction s
  let (exponent, s) ← readExponent s
  return (⟨negative, valueOf ds, fraction ++ exponent⟩, s)

def readNumber : Content → Option (Number × Content)
  | some '-' :: s => readUnsigned true s
  | s => readUnsigned false s

mutual

/-- A value at the front; `fuel` bounds the depth and the number of items. -/
def readValue : Nat → Content → Option (Json × Content)
  | 0, _ => none
  | fuel + 1, s =>
    match skipSpace s with
    | some 'n' :: s => (expect "ull".toList s).map (.null, ·)
    | some 't' :: s => (expect "rue".toList s).map (.bool true, ·)
    | some 'f' :: s => (expect "alse".toList s).map (.bool false, ·)
    | some '"' :: s => (readString s).map fun (ps, s) => (.string ps, s)
    | some '[' :: s =>
      match skipSpace s with
      | some ']' :: s => some (.array [], s)
      | s => (readItems fuel s).map fun (js, s) => (.array js, s)
    | some '\x7b' :: s =>
      match skipSpace s with
      | some '\x7d' :: s => some (.object [], s)
      | s => (readMembers fuel s).map fun (ms, s) => (.object ms, s)
    | s => (readNumber s).map fun (n, s) => (.number n, s)

def readItems : Nat → Content → Option (List Json × Content)
  | 0, _ => none
  | fuel + 1, s => do
    let (j, s) ← readValue fuel s
    match skipSpace s with
    | some ',' :: s =>
      let (js, s) ← readItems fuel s
      return (j :: js, s)
    | some ']' :: s => return ([j], s)
    | _ => none

def readMembers : Nat → Content → Option (List (Pieces × Json) × Content)
  | 0, _ => none
  | fuel + 1, s =>
    match skipSpace s with
    | some '"' :: s => do
      let (k, s) ← readString s
      match skipSpace s with
      | some ':' :: s =>
        let (j, s) ← readValue fuel s
        match skipSpace s with
        | some ',' :: s =>
          let (ms, s) ← readMembers fuel s
          return ((k, j) :: ms, s)
        | some '\x7d' :: s => return ([(k, j)], s)
        | _ => none
      | _ => none
    | _ => none

end

def parse (s : Content) : Option Json := do
  let (j, s) ← readValue (s.length + 1) s
  if skipSpace s = [] then some j else none

end DeviceLock.Json
