import DeviceLock.Yaml.Token

/-!
The tree of a YAML document. An alias stands for the node it names; inside that node itself it is
`cyclic`.
-/

namespace DeviceLock.Yaml

inductive Node
  | scalar (style : Style) (tag : Option String) (text : String)
  | sequence (items : List Node)
  | mapping (entries : List (Node × Node))
  | cyclic

namespace Node

def empty : Node := .scalar .plain none ""

/-- Anchored nodes, the latest first; a node that is still being read is `none`. -/
abbrev Anchors := List (String × Nat × Option Node)

structure Reading where
  tokens : List Token
  anchors : Anchors
  handles : List (String × String)

def Reading.skip (r : Reading) : Reading := { r with tokens := r.tokens.drop 1 }

def Reading.next? (r : Reading) : Option Token := r.tokens.head?

def Reading.enter (r : Reading) : Option String → Option Nat × Reading
  | none => (none, r)
  | some name =>
    (some r.anchors.length, { r with anchors := (name, r.anchors.length, none) :: r.anchors })

def Reading.leave (r : Reading) (node : Node) : Option Nat → Reading
  | none => r
  | some id =>
    { r with
      anchors := r.anchors.map fun (name, i, n) => (name, i, if i = id then some node else n) }

def Reading.expand? (r : Reading) (handle suffix : String) : Option String :=
  if handle = "" then some suffix
  else (r.handles.find? fun h => h.1 == handle).map fun h => h.2 ++ suffix

def readProperties (r : Reading) : Option (Option String × Option String × Reading) :=
  match r.tokens with
  | .anchor a :: .tag h s :: _ => do
    let r' := r.skip.skip
    return (some a, some (← r.expand? h s), r')
  | .tag h s :: .anchor a :: _ => do
    let r' := r.skip.skip
    return (some a, some (← r.expand? h s), r')
  | .anchor a :: _ => some (some a, none, r.skip)
  | .tag h s :: _ => do return (none, some (← r.expand? h s), r.skip)
  | _ => some (none, none, r)

def endsBlockNode : Option Token → Bool
  | some .key | some .value | some .blockEnd => true
  | _ => false

mutual

def read (block flat : Bool) : Nat → Reading → Option (Node × Reading)
  | 0, _ => none
  | fuel + 1, r =>
    match r.next? with
    | some (.alias name) =>
      match r.anchors.find? fun a => a.1 == name with
      | some (_, _, some node) => some (node, r.skip)
      | some (_, _, none) => some (.cyclic, r.skip)
      | none => none
    | _ => do
      let (anchor, tag, r) ← readProperties r
      let (id, r) := r.enter anchor
      let (node, r) ←
        match r.next? with
        | some .blockEntry =>
          if flat then do
            let (items, r) ← readFlat fuel r
            pure (.sequence items, r)
          else if anchor.isSome || tag.isSome then pure (.scalar .plain tag "", r)
          else none
        | some (.scalar style s) =>
          pure (.scalar style (tag.filter (· != "!")) s, r.skip)
        | some .flowSequence => do
          let (items, r) ← readFlowItems true fuel r.skip
          pure (.sequence items, r)
        | some .flowMapping => do
          let (entries, r) ← readFlowEntries true fuel r.skip
          pure (.mapping entries, r)
        | some .blockSequence =>
          if block then do
            let (items, r) ← readBlockItems fuel r.skip
            pure (.sequence items, r)
          else if anchor.isSome || tag.isSome then pure (.scalar .plain tag "", r)
          else none
        | some .blockMapping =>
          if block then do
            let (entries, r) ← readBlockEntries fuel r.skip
            pure (.mapping entries, r)
          else if anchor.isSome || tag.isSome then pure (.scalar .plain tag "", r)
          else none
        | _ => if anchor.isSome || tag.isSome then pure (.scalar .plain tag "", r) else none
      return (node, r.leave node id)

def readFlat : Nat → Reading → Option (List Node × Reading)
  | 0, _ => none
  | fuel + 1, r =>
    match r.next? with
    | some .blockEntry => do
      let r := r.skip
      let (item, r) ←
        if r.next? = some .blockEntry || endsBlockNode r.next? then pure (empty, r)
        else read true false fuel r
      let (items, r) ← readFlat fuel r
      return (item :: items, r)
    | _ => some ([], r)

def readBlockItems : Nat → Reading → Option (List Node × Reading)
  | 0, _ => none
  | fuel + 1, r =>
    match r.next? with
    | some .blockEntry => do
      let r := r.skip
      let (item, r) ←
        if r.next? = some .blockEntry || r.next? = some .blockEnd then pure (empty, r)
        else read true false fuel r
      let (items, r) ← readBlockItems fuel r
      return (item :: items, r)
    | some .blockEnd => some ([], r.skip)
    | _ => none

def readBlockEntries : Nat → Reading → Option (List (Node × Node) × Reading)
  | 0, _ => none
  | fuel + 1, r =>
    match r.next? with
    | some .key => do
      let r := r.skip
      let (key, r) ← if endsBlockNode r.next? then pure (empty, r) else read true true fuel r
      let (value, r) ← readBlockValue fuel r
      let (entries, r) ← readBlockEntries fuel r
      return ((key, value) :: entries, r)
    | some .blockEnd => some ([], r.skip)
    | _ => none

def readBlockValue : Nat → Reading → Option (Node × Reading)
  | 0, _ => none
  | fuel + 1, r =>
    match r.next? with
    | some .value =>
      let r := r.skip
      if endsBlockNode r.next? then some (empty, r) else read true true fuel r
    | _ => some (empty, r)

def readFlowItems (first : Bool) : Nat → Reading → Option (List Node × Reading)
  | 0, _ => none
  | fuel + 1, r =>
    match r.next? with
    | some .flowSequenceEnd => some ([], r.skip)
    | t => do
      let r ← if first then pure r else if t = some .flowEntry then pure r.skip else none
      match r.next? with
      | some .flowSequenceEnd => return ([], r.skip)
      | some .key =>
        let r := r.skip
        let (key, r) ←
          if r.next? = some .value || r.next? = some .flowEntry || r.next? = some .flowSequenceEnd
          then pure (empty, r) else read false false fuel r
        let (value, r) ←
          if r.next? = some .value then
            let r := r.skip
            if r.next? = some .flowEntry || r.next? = some .flowSequenceEnd then pure (empty, r)
            else read false false fuel r
          else pure (empty, r)
        let (items, r) ← readFlowItems false fuel r
        return (.mapping [(key, value)] :: items, r)
      | _ =>
        let (item, r) ← read false false fuel r
        let (items, r) ← readFlowItems false fuel r
        return (item :: items, r)

def readFlowEntries (first : Bool) : Nat → Reading → Option (List (Node × Node) × Reading)
  | 0, _ => none
  | fuel + 1, r =>
    match r.next? with
    | some .flowMappingEnd => some ([], r.skip)
    | t => do
      let r ← if first then pure r else if t = some .flowEntry then pure r.skip else none
      match r.next? with
      | some .flowMappingEnd => return ([], r.skip)
      | some .key =>
        let r := r.skip
        let (key, r) ←
          if r.next? = some .value || r.next? = some .flowEntry || r.next? = some .flowMappingEnd
          then pure (empty, r) else read false false fuel r
        let (value, r) ←
          if r.next? = some .value then
            let r := r.skip
            if r.next? = some .flowEntry || r.next? = some .flowMappingEnd then pure (empty, r)
            else read false false fuel r
          else pure (empty, r)
        let (entries, r) ← readFlowEntries false fuel r
        return ((key, value) :: entries, r)
      | _ =>
        let (key, r) ← read false false fuel r
        let (entries, r) ← readFlowEntries false fuel r
        return ((key, empty) :: entries, r)

end

def defaultHandles : List (String × String) := [("!", "!"), ("!!", "tag:yaml.org,2002:")]

def readDirectives : List Token → (version : Bool) → List (String × String) →
    Option (List (String × String) × List Token)
  | .version major minor :: ts, version, handles =>
    if version ∨ major ≠ 1 ∨ (minor ≠ 1 ∧ minor ≠ 2) then none
    else readDirectives ts true handles
  | .handle name expansion :: ts, version, handles =>
    if handles.any fun h => h.1 == name then none
    else readDirectives ts version ((name, expansion) :: handles)
  | ts, _, handles =>
    some (handles ++ defaultHandles, ts)

/-- What a stream of at most one document holds: `some none` for no document at all. -/
def ofTokens? (ts : List Token) : Option (Option Node) :=
  match ts with
  | [.streamEnd] => some none
  | _ => do
    let (handles, rest) ← readDirectives ts false []
    let (node, r) ←
      match rest with
      | .documentStart :: rest =>
        match rest with
        | .documentEnd :: _ | .documentStart :: _ | .streamEnd :: _ | .version _ _ :: _
        | .handle _ _ :: _ => pure (empty, (⟨rest, [], handles⟩ : Reading))
        | _ => read true false (3 * ts.length + 3) ⟨rest, [], handles⟩
      | rest =>
        if rest.length = ts.length then read true false (3 * ts.length + 3) ⟨rest, [], handles⟩
        else none
    if r.tokens.dropWhile (· == .documentEnd) = [.streamEnd] then some (some node) else none

def parse (s : String) : Option (Option Node) := (Token.ofChars? s.toList).bind ofTokens?

end Node

end DeviceLock.Yaml
