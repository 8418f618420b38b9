import DeviceLock.Yaml.Scalar

/-!
The tokens of a YAML stream. Indentation becomes block starts and ends; a key is recognised when
its colon arrives, so its marks are put in front of tokens already read.
-/

namespace DeviceLock.Yaml

inductive Style
  | plain | literal | other
  deriving DecidableEq, Repr

inductive Token
  | streamEnd
  | version (major minor : Nat)
  | handle (name : String) (expansion : String)
  | documentStart | documentEnd
  | blockSequence | blockMapping | blockEnd | blockEntry
  | flowSequence | flowSequenceEnd | flowMapping | flowMappingEnd | flowEntry
  | key | value
  | alias (name : String)
  | anchor (name : String)
  | tag (handle suffix : String)
  | scalar (style : Style) (text : String)
  deriving DecidableEq, Repr

/-- A place where a key may have begun, given by the number of tokens before it. -/
structure Candidate where
  required : Bool
  position : Nat
  mark : Mark

structure Lexer where
  place : Place
  tokens : List Token
  indent : Int
  outer : List Int
  keyAllowed : Bool
  candidate : Option Candidate
  enclosing : List (Option Candidate)

namespace Lexer

def start (s : List Char) : Lexer := ⟨⟨Mark.start, s⟩, [], -1, [], true, none, []⟩

def inFlow (l : Lexer) : Bool := !l.enclosing.isEmpty

def push (l : Lexer) (t : Token) : Lexer := { l with tokens := l.tokens ++ [t] }

def column (l : Lexer) : Int := l.place.mark.column

def dropCandidate (l : Lexer) : Option Lexer :=
  match l.candidate with
  | some c => if c.required then none else some { l with candidate := none }
  | none => some l

def markCandidate (l : Lexer) : Option Lexer :=
  if l.keyAllowed then do
    let l ← l.dropCandidate
    let required := !l.inFlow && l.indent == l.column
    return { l with candidate := some ⟨required, l.tokens.length, l.place.mark⟩ }
  else some l

def isStale (m : Mark) (c : Candidate) : Bool :=
  c.mark.line < m.line || c.mark.index + 1024 < m.index

def forgetStale (l : Lexer) : Option Lexer :=
  let m := l.place.mark
  let stale := fun c : Option Candidate => c.any (isStale m)
  let lost := fun c : Option Candidate => c.any fun c => isStale m c && c.required
  if (l.candidate :: l.enclosing).any lost then none
  else
    let keep := fun c => if stale c then none else c
    some { l with candidate := keep l.candidate, enclosing := l.enclosing.map keep }

def openBlock (l : Lexer) (column : Int) (position : Nat) (t : Token) : Lexer :=
  if l.inFlow || column ≤ l.indent then l
  else
    { l with
      indent := column, outer := l.indent :: l.outer, tokens := l.tokens.insertIdx position t }

def closeBlocks (l : Lexer) (column : Int) : Lexer :=
  if l.inFlow then l else go l.outer l.indent l.tokens
where
  go (outer : List Int) (indent : Int) (tokens : List Token) : Lexer :=
    if indent ≤ column then { l with outer := outer, indent := indent, tokens := tokens }
    else
      match outer with
      | [] => { l with outer := [], indent := indent, tokens := tokens }
      | i :: outer => go outer i (tokens ++ [.blockEnd])

def skipGaps (l : Lexer) : Lexer :=
  go (l.place.rest.length + 1) l
where
  go : Nat → Lexer → Lexer
    | 0, l => l
    | fuel + 1, l =>
      let p := match l.place.rest with
        | '\uFEFF' :: _ => if l.place.mark.index = 0 then l.place.skip 1 else l.place
        | _ => l.place
      let p := p.skipWhile fun c => c = ' ' || ((l.inFlow || !l.keyAllowed) && c = '\t')
      let p := match p.rest with
        | '#' :: _ => p.skipWhile fun c => !isBreak c
        | _ => p
      match p.rest with
      | c :: _ =>
        if isBreak c then
          go fuel { l with place := p.skipBreak, keyAllowed := !l.inFlow || l.keyAllowed }
        else { l with place := p }
      | [] => { l with place := p }

def readNumber (p : Place) : Option (Nat × Place) :=
  let (ds, p) := p.span Char.isDigit
  if ds = [] ∨ 9 < ds.length then none
  else some (ds.foldl (fun n d => n * 10 + (d.toNat - 48)) 0, p)

def readHandle (directive : Bool) (p : Place) : Option (List Char × Place) :=
  match p.rest with
  | '!' :: _ =>
    let (word, q) := (p.skip 1).span isWord
    match q.rest with
    | '!' :: _ => some ('!' :: word ++ ['!'], q.skip 1)
    | _ => if directive && !word.isEmpty then none else some ('!' :: word, q)
  | _ => none

def isUriChar (verbatim : Bool) (c : Char) : Bool :=
  isWord c || ";/?:@&=+$.%!~*'()".toList.contains c || (verbatim && (c = ',' || c = '[' || c = ']'))

def escapedOctets : List Char → List Nat
  | '%' :: a :: b :: cs =>
    match hexValue? a, hexValue? b with
    | some a, some b => (a * 16 + b) :: escapedOctets cs
    | _, _ => []
  | _ => []

def octetWidth (b : Nat) : Nat :=
  if b < 0x80 then 1 else if 0xC0 ≤ b ∧ b < 0xE0 then 2 else if 0xE0 ≤ b ∧ b < 0xF0 then 3
  else if 0xF0 ≤ b ∧ b < 0xF8 then 4 else 0

def decodeUri (skipped : Nat) : List Char → Option (List Char)
  | [] => some []
  | c :: cs =>
    match skipped with
    | n + 1 => decodeUri n cs
    | 0 =>
      if c = '%' then
        let octets := escapedOctets (c :: cs)
        let width := octetWidth (octets.headD 0x80)
        let octets := octets.take width
        if width = 0 ∨ octets.length < width ∨ (octets.drop 1).any fun b => b / 64 != 2 then none
        else
          let low := (octets.drop 1).foldl (fun n b => n * 64 + b % 64)
          let high := (octets.headD 0) % (if width = 1 then 128 else 2 ^ (7 - width))
          match charOf? (low high) with
          | some d => (decodeUri (3 * width - 1) cs).map (d :: ·)
          | none => none
      else (decodeUri 0 cs).map (c :: ·)

def readUri (verbatim : Bool) (head : List Char) (p : Place) : Option (List Char × Place) := do
  let (uri, p) := p.span (isUriChar verbatim)
  if head = [] ∧ uri = [] then none
  return (head.drop 1 ++ (← decodeUri 0 uri), p)

def text (s : List Char) : String := String.ofList s

def readDirective (p : Place) : Option (Token × Place) := do
  let (name, p) := (p.skip 1).span isWord
  if name = [] ∨ !atGap p.rest then none
  let p := p.skipWhile isSpace
  let (t, p) ←
    if name = "YAML".toList then do
      let (major, p) ← readNumber p
      if p.rest.head? ≠ some '.' then none
      let (minor, p) ← readNumber (p.skip 1)
      pure (Token.version major minor, p)
    else if name = "TAG".toList then do
      let (handle, p) ← readHandle true p
      if !(p.rest.head?.any isSpace) then none
      let (expansion, p) ← readUri true [] (p.skipWhile isSpace)
      if !atGap p.rest then none
      pure (Token.handle (text handle) (text expansion), p)
    else none
  let p := p.skipToLineEnd
  if !atLineEnd p.rest then none
  return (t, p.skipBreak)

def readName (p : Place) : Option (String × Place) :=
  let (name, p) := (p.skip 1).span isWord
  let ends := atGap p.rest || p.rest.head?.any fun c => "?:,]\x7d%@\x60".toList.contains c
  if name = [] ∨ !ends then none else some (text name, p)

def readTag (flow : Bool) (p : Place) : Option (Token × Place) := do
  let (handle, suffix, p) ←
    match p.rest with
    | '!' :: '<' :: _ => do
      let (suffix, p) ← readUri true [] (p.skip 2)
      if p.rest.head? ≠ some '>' then none
      pure ([], suffix, p.skip 1)
    | _ => do
      let (handle, p) ← readHandle false p
      if 2 ≤ handle.length ∧ handle.getLast? = some '!' then do
        let (suffix, p) ← readUri false [] p
        pure (handle, suffix, p)
      else do
        let (suffix, p) ← readUri false handle p
        if suffix = [] then pure ([], ['!'], p) else pure (['!'], suffix, p)
  if (flow && p.rest.head? = some ',') || atGap p.rest then
    return (.tag (text handle) (text suffix), p)
  else none

def startsPlain (flow : Bool) (c : Char) (cs : List Char) : Bool :=
  (!(isSpace c || isBreak c) && !("-?:,[]\x7b\x7d#&*!|>'\"%@\x60".toList.contains c)) ||
    (c = '-' && !(cs.head?.any isSpace)) || (!flow && (c = '?' || c = ':') && !atGap cs)

def insertKey (l : Lexer) (c : Candidate) : Lexer :=
  let l := { l with tokens := l.tokens.insertIdx c.position .key }
  let l := l.openBlock c.mark.column c.position .blockMapping
  { l with candidate := none, keyAllowed := false }

def take (l : Lexer) (n : Nat) (t : Token) : Lexer := { l.push t with place := l.place.skip n }

def readToken (l : Lexer) (c : Char) (cs : List Char) : Option Lexer :=
  let p := l.place
  let flow := l.inFlow
  if p.mark.column = 0 ∧ c = '%' then do
    let l ← (l.closeBlocks (-1)).dropCandidate
    let (t, p) ← readDirective p
    return { l.push t with place := p, keyAllowed := false }
  else if p.atIndicator then do
    let l ← (l.closeBlocks (-1)).dropCandidate
    return { l.take 3 (if c = '-' then .documentStart else .documentEnd) with keyAllowed := false }
  else if c = '[' || c = '\x7b' then do
    let l ← l.markCandidate
    let l := { l with
      enclosing := l.candidate :: l.enclosing, candidate := none, keyAllowed := true }
    return l.take 1 (if c = '[' then .flowSequence else .flowMapping)
  else if c = ']' || c = '\x7d' then do
    let l ← l.dropCandidate
    let l := match l.enclosing with
      | [] => l
      | c :: enclosing => { l with candidate := c, enclosing := enclosing }
    let close := if c = ']' then .flowSequenceEnd else .flowMappingEnd
    return { l.take 1 close with keyAllowed := false }
  else if c = ',' then do
    let l ← l.dropCandidate
    return { l.take 1 .flowEntry with keyAllowed := true }
  else if c = '-' ∧ atGap cs then
    if !flow && !l.keyAllowed then none
    else do
      let l ← (l.openBlock l.column l.tokens.length .blockSequence).dropCandidate
      return { l.take 1 .blockEntry with keyAllowed := true }
  else if c = '?' ∧ (flow || atGap cs) then
    if !flow && !l.keyAllowed then none
    else do
      let l ← (l.openBlock l.column l.tokens.length .blockMapping).dropCandidate
      return { l.take 1 .key with keyAllowed := !flow }
  else if c = ':' ∧ (flow || atGap cs) then
    match l.candidate with
    | some key => some ((l.insertKey key).take 1 .value)
    | none =>
      if !flow && !l.keyAllowed then none
      else
        let l := l.openBlock l.column l.tokens.length .blockMapping
        some { l.take 1 .value with keyAllowed := !flow }
  else if c = '*' || c = '&' then do
    let l ← l.markCandidate
    let (name, p) ← readName p
    let token := if c = '*' then .alias name else .anchor name
    return { l.push token with place := p, keyAllowed := false }
  else if c = '!' then do
    let l ← l.markCandidate
    let (t, p) ← readTag flow p
    return { l.push t with place := p, keyAllowed := false }
  else if (c = '|' || c = '>') && !flow then do
    let l ← l.dropCandidate
    let (s, p) ← blockScalar (c = '|') l.indent (p.skip 1)
    return { l.push (.scalar (if c = '|' then .literal else .other) (text s)) with
      place := p, keyAllowed := true }
  else if c = '\'' || c = '"' then do
    let l ← l.markCandidate
    let (s, p) ←
      if c = '"' then doubleQuoted 0 .empty (p.mark.beyond 1) cs
      else singleQuoted .empty (p.mark.beyond 1) cs
    return { l.push (.scalar .other (text s)) with place := p, keyAllowed := false }
  else if startsPlain flow c cs then do
    let l ← l.markCandidate
    let (s, broken, p) ← plain flow (l.indent + 1).toNat .empty false p.mark p.rest
    return { l.push (.scalar .plain (text s)) with place := p, keyAllowed := broken }
  else none

def finish (l : Lexer) : Option (List Token) :=
  (l.closeBlocks (-1)).dropCandidate.map fun l => l.tokens ++ [.streamEnd]

def run : Nat → Lexer → Option (List Token)
  | 0, _ => none
  | fuel + 1, l => do
    let l ← l.skipGaps.forgetStale
    let l := l.closeBlocks l.column
    match l.place.rest with
    | [] => l.finish
    | c :: cs => run fuel (← l.readToken c cs)

end Lexer

def Token.ofChars? (s : List Char) : Option (List Token) :=
  if s.all isAllowed then Lexer.run (s.length + 1) (Lexer.start s) else none

end DeviceLock.Yaml
