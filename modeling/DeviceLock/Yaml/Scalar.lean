import DeviceLock.Yaml.Mark

namespace DeviceLock.Yaml

structure Folding where
  text : List Char
  blanks : List Char
  broken : Bool
  first : List Char
  more : List Char

namespace Folding

def empty : Folding := ⟨[], [], false, [], []⟩

def addBlank (f : Folding) (c : Char) : Folding :=
  if f.broken then f else { f with blanks := c :: f.blanks }

def addBreak (f : Folding) (c : Char) : Folding :=
  if f.broken then { f with more := keptBreak c :: f.more }
  else { f with blanks := [], broken := true, first := [keptBreak c] }

def between (f : Folding) : List Char :=
  if f.broken then
    if f.first = ['\n'] then (if f.more = [] then [' '] else f.more) else f.more ++ f.first
  else f.blanks

def join (f : Folding) : Folding := ⟨f.between ++ f.text, [], false, [], []⟩

def add (f : Folding) (c : Char) : Folding :=
  let f := f.join
  { f with text := c :: f.text }

def dropBreak (f : Folding) : Folding := { f.join with broken := true }

def result (f : Folding) : List Char := f.text.reverse

end Folding

def hexValue? (c : Char) : Option Nat :=
  if '0' ≤ c ∧ c ≤ '9' then some (c.toNat - 48)
  else if 'a' ≤ c ∧ c ≤ 'f' then some (c.toNat - 87)
  else if 'A' ≤ c ∧ c ≤ 'F' then some (c.toNat - 55)
  else none

def hexNumber? (cs : List Char) : Option Nat :=
  cs.foldlM (fun n c => (hexValue? c).map (n * 16 + ·)) 0

def escapeWidth? : Char → Option Nat
  | 'x' => some 2
  | 'u' => some 4
  | 'U' => some 8
  | _ => none

def escape? : Char → Option Char
  | '0' => some '\x00'
  | 'a' => some '\x07'
  | 'b' => some '\x08'
  | 't' => some '\t'
  | '\t' => some '\t'
  | 'n' => some '\n'
  | 'v' => some '\x0b'
  | 'f' => some '\x0c'
  | 'r' => some '\r'
  | 'e' => some '\x1b'
  | ' ' => some ' '
  | '"' => some '"'
  | '/' => some '/'
  | '\\' => some '\\'
  | 'N' => some '\u0085'
  | '_' => some '\u00a0'
  | 'L' => some '\u2028'
  | 'P' => some '\u2029'
  | _ => none

def charOf? (n : Nat) : Option Char :=
  if h : n.isValidChar then some (Char.ofNatAux n h) else none

def singleQuoted (f : Folding) (m : Mark) : List Char → Option (List Char × Place)
  | [] => none
  | '\'' :: '\'' :: cs => singleQuoted (f.add '\'') (m.beyond 2) cs
  | '\'' :: cs => some (f.join.result, ⟨m.beyond 1, cs⟩)
  | '\r' :: '\n' :: cs => singleQuoted (f.addBreak '\n') (m.overBreak 2) cs
  | c :: cs =>
    if isSpace c then singleQuoted (f.addBlank c) (m.beyond 1) cs
    else if isBreak c then singleQuoted (f.addBreak c) (m.overBreak 1) cs
    else if Place.atIndicator ⟨m, c :: cs⟩ then none
    else singleQuoted (f.add c) (m.beyond 1) cs

def doubleQuoted (skipped : Nat) (f : Folding) (m : Mark) : List Char → Option (List Char × Place)
  | [] => none
  | c :: cs =>
    match skipped with
    | n + 1 => doubleQuoted n f m cs
    | 0 =>
      if c = '"' then some (f.join.result, ⟨m.beyond 1, cs⟩)
      else if isSpace c then doubleQuoted 0 (f.addBlank c) (m.beyond 1) cs
      else if isBreak c then
        if c = '\r' ∧ cs.head? = some '\n' then doubleQuoted 1 (f.addBreak '\n') (m.overBreak 2) cs
        else doubleQuoted 0 (f.addBreak c) (m.overBreak 1) cs
      else if Place.atIndicator ⟨m, c :: cs⟩ then none
      else if c = '\\' then
        match cs with
        | [] => none
        | '\r' :: '\n' :: _ => doubleQuoted 2 f.dropBreak ((m.beyond 1).overBreak 2) cs
        | e :: es =>
          if isBreak e then doubleQuoted 1 f.dropBreak ((m.beyond 1).overBreak 1) cs
          else
            match escapeWidth? e with
            | some width =>
              if es.length < width then none
              else
                match (hexNumber? (es.take width)).bind charOf? with
                | some d => doubleQuoted (1 + width) (f.add d) (m.beyond (2 + width)) cs
                | none => none
            | none =>
              match escape? e with
              | some d => doubleQuoted 1 (f.add d) (m.beyond 2) cs
              | none => none
      else doubleQuoted 0 (f.add c) (m.beyond 1) cs

def isFlowIndicator (c : Char) : Bool := c = ',' || c = '[' || c = ']' || c = '\x7b' || c = '\x7d'

/-- A plain scalar. Outside of flow collections a line of less than `indent` columns ends it;
`gap` tells that blanks or breaks stand before the next character. The answer tells whether breaks
followed the text. -/
def plain (flow : Bool) (indent : Nat) (f : Folding) (gap : Bool) (m : Mark) :
    List Char → Option (List Char × Bool × Place)
  | [] => some (f.result, f.broken, ⟨m, []⟩)
  | '\r' :: '\n' :: cs => plain flow indent (f.addBreak '\n') true (m.overBreak 2) cs
  | c :: cs =>
    if isSpace c then
      if f.broken && m.column < indent && c == '\t' then none
      else plain flow indent (f.addBlank c) true (m.beyond 1) cs
    else if isBreak c then plain flow indent (f.addBreak c) true (m.overBreak 1) cs
    else if gap && ((!flow && m.column < indent) || Place.atIndicator ⟨m, c :: cs⟩ || c == '#') then
      some (f.result, f.broken, ⟨m, c :: cs⟩)
    else if flow && c == ':' && (cs.head?.any fun d => isFlowIndicator d || d == '?') then none
    else if (c == ':' && atGap cs) || (flow && isFlowIndicator c) then
      some (f.result, f.broken, ⟨m, c :: cs⟩)
    else plain flow indent (f.add c) false (m.beyond 1) cs

inductive Chomping
  | strip | clip | keep
  deriving DecidableEq, Repr

def emptyLines (indent : Nat) (breaks : List Char) (widest : Nat) (m : Mark) :
    List Char → Option (List Char × Nat × Place)
  | [] => some (breaks, max widest m.column, ⟨m, []⟩)
  | '\r' :: '\n' :: cs =>
    emptyLines indent ('\n' :: breaks) (max widest m.column) (m.overBreak 2) cs
  | c :: cs =>
    let inside := indent == 0 || m.column < indent
    if inside && c == ' ' then emptyLines indent breaks widest (m.beyond 1) cs
    else if inside && c == '\t' then none
    else if isBreak c then
      emptyLines indent (keptBreak c :: breaks) (max widest m.column) (m.overBreak 1) cs
    else some (breaks, max widest m.column, ⟨m, c :: cs⟩)

def blockLines (literal : Bool) (indent : Nat) (chomping : Chomping) :
    Nat → (text first more : List Char) → (blank : Bool) → Place → Option (List Char × Place)
  | 0, _, _, _, _, _ => none
  | fuel + 1, text, first, more, blank, p =>
    match p.rest with
    | c :: _ =>
      if p.mark.column = indent then
        let folds := !literal && first == ['\n'] && !blank && !isSpace c
        let before := if folds then (if more = [] then [' '] else more) else more ++ first
        let (line, p) := p.span fun c => !isBreak c
        let first := match p.rest with
          | [] => []
          | b :: _ => [keptBreak b]
        match emptyLines indent [] 0 p.skipBreak.mark p.skipBreak.rest with
        | some (more, _, q) =>
          blockLines literal indent chomping fuel (line.reverse ++ before ++ text) first more
            (isSpace c) q
        | none => none
      else finish text first more p
    | [] => finish text first more p
where
  finish (text first more : List Char) (p : Place) : Option (List Char × Place) :=
    match chomping with
    | .strip => some (text.reverse, p)
    | .clip => some ((first ++ text).reverse, p)
    | .keep => some ((more ++ first ++ text).reverse, p)

def blockHeader (p : Place) : Option (Chomping × Nat × Place) :=
  match p.rest with
  | '+' :: d :: _ => width .keep d (p.skip 1)
  | '-' :: d :: _ => width .strip d (p.skip 1)
  | ['+'] => some (.keep, 0, p.skip 1)
  | ['-'] => some (.strip, 0, p.skip 1)
  | d :: c :: _ =>
    if d = '0' then none
    else if d.isDigit then
      let n := d.toNat - 48
      if c = '+' then some (.keep, n, p.skip 2)
      else if c = '-' then some (.strip, n, p.skip 2)
      else some (.clip, n, p.skip 1)
    else some (.clip, 0, p)
  | [d] =>
    if d = '0' then none
    else if d.isDigit then some (.clip, d.toNat - 48, p.skip 1)
    else some (.clip, 0, p)
  | [] => some (.clip, 0, p)
where
  width (chomping : Chomping) (d : Char) (p : Place) : Option (Chomping × Nat × Place) :=
    if d = '0' then none
    else if d.isDigit then some (chomping, d.toNat - 48, p.skip 1)
    else some (chomping, 0, p)

def blockScalar (literal : Bool) (outer : Int) (p : Place) : Option (List Char × Place) := do
  let (chomping, increment, p) ← blockHeader p
  let p := p.skipToLineEnd
  if !atLineEnd p.rest then none
  let p := p.skipBreak
  let given := if increment = 0 then 0 else (max outer 0).toNat + increment
  let (breaks, widest, p) ← emptyLines given [] 0 p.mark p.rest
  let indent := if given = 0 then max widest (max (outer + 1).toNat 1) else given
  blockLines literal indent chomping (p.rest.length + 1) [] [] breaks false p

end DeviceLock.Yaml
