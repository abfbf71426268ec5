import Pipeline.Yaml.Lexer
import Pipeline.Yaml.Tag

namespace Pipeline.Yaml

inductive Node where
  | scalar (tag : Tag) (content : Content)
  | sequence (tag : Tag) (items : List Node)
  | mapping (tag : Tag) (entries : List (Node × Node))

namespace Node

def tag : Node → Tag
  | scalar t _ => t
  | sequence t _ => t
  | mapping t _ => t

end Node

structure Reading where
  tokens : List Token
  anchors : List (String × Node)
  version : Nat × Nat
  handles : List (String × String)

abbrev Parse := StateT Reading (Except Fault)

namespace Parse

/-- The next token. What is wrong with the text counts when it is reached. -/
def peek : Parse Token := do
  match (← get).tokens.headD .textEnd with
  | .broken f => throw f
  | t => return t

def drop : Parse Unit := modify fun r => { r with tokens := r.tokens.tail }

def accept (t : Token) : Parse Bool := do
  if (← peek) == t then
    drop
    return true
  return false

def expect (t : Token) : Parse Unit := do
  if !(← accept t) then throw .malformed

def bySpelling (content : Content) : Parse Tag := do
  Tag.ofPlain (← get).version (content.getD ['\ufffd'])

def missing : Parse Node := return .scalar (← bySpelling (some [])) (some [])

def aliased (name : String) : Parse Node := do
  match (← get).anchors.lookup name with
  | some n => return n
  | none => throw .malformed

def tagText (handle : Option String) (suffix : String) : Parse String := do
  match handle with
  | none => return suffix
  | some h => match (← get).handles.lookup h with
    | some stem => return stem ++ suffix
    | none => throw .malformed

def anchor? : Parse (Option String) := do
  match ← peek with
  | .anchor name =>
    drop
    return some name
  | _ => return none

def tag? : Parse (Option String) := do
  match ← peek with
  | .tag handle suffix =>
    drop
    return some (← tagText handle suffix)
  | _ => return none

def properties : Parse (Option String × Option String) := do
  match ← anchor? with
  | some name => return (some name, ← tag?)
  | none =>
    match ← tag? with
    | some t => return (← anchor?, some t)
    | none => return (none, none)

/-- The kind of a scalar. A tag of one exclamation mark leaves it to the spelling, quotes or not. -/
def scalarTag (t : Option String) (content : Content) (plain : Bool) : Parse Tag := do
  match t with
  | some s => if s = "!" then bySpelling content else return Tag.ofUri s
  | none => if plain then bySpelling content else return Tag.text

def collectionTag (t : Option String) (standard : Tag) : Tag :=
  match t with
  | some s => if s = "!" then standard else Tag.ofUri s
  | none => standard

def anchored (anchor : Option String) (n : Node) : Parse Node := do
  if let some name := anchor then
    modify fun r => { r with anchors := (name, n) :: r.anchors }
  return n

/-- Reads a collection whose anchor already stands for an empty one while it is read. -/
def collection (anchor : Option String) (empty : Node) (read : Parse Node) : Parse Node := do
  let _ ← anchored anchor empty
  let depth := (← get).anchors.length
  let n ← read
  if let some name := anchor then
    modify fun r =>
      { r with anchors := r.anchors.set (r.anchors.length - depth) (name, n) }
  return n

mutual

/-- A node: an alias, or properties and what they belong to. Block collections may stand where
`block` says so, items without an indent of their own where `bare` does. -/
def node : Nat → Bool → Bool → Parse Node
  | 0, _, _ => throw .malformed
  | fuel + 1, block, bare => do
    if let .alias name := ← peek then
      drop
      return ← aliased name
    let (anchor, t) ← properties
    let sequenceTag := collectionTag t .sequence
    let mappingTag := collectionTag t .mapping
    let items (read : Parse (List Node)) : Parse Node :=
      collection anchor (.sequence sequenceTag []) (Node.sequence sequenceTag <$> read)
    let entries (read : Parse (List (Node × Node))) : Parse Node :=
      collection anchor (.mapping mappingTag []) (Node.mapping mappingTag <$> read)
    match ← peek with
    | .scalar content plain =>
      drop
      anchored anchor (.scalar (← scalarTag t content plain) content)
    | .flowSequenceStart =>
      drop
      items (flowItems fuel true)
    | .flowMappingStart =>
      drop
      entries (flowEntries fuel true)
    | next =>
      if bare ∧ next = .blockEntry then items (bareItems fuel)
      else if block ∧ next = .blockSequenceStart then
        drop
        items (blockItems fuel)
      else if block ∧ next = .blockMappingStart then
        drop
        entries (blockEntries fuel)
      else if anchor.isSome ∨ t.isSome then
        anchored anchor (.scalar (← scalarTag t (some []) true) (some []))
      else throw .malformed

def nodeBefore : Nat → List Token → Bool → Bool → Parse Node
  | 0, _, _, _ => throw .malformed
  | fuel + 1, followers, block, bare => do
    if followers.contains (← peek) then missing else node fuel block bare

def blockItems : Nat → Parse (List Node)
  | 0 => throw .malformed
  | fuel + 1 => do
    if ← accept .blockEntry then
      let n ← nodeBefore fuel [.blockEntry, .blockEnd] true false
      return n :: (← blockItems fuel)
    expect .blockEnd
    return []

def bareItems : Nat → Parse (List Node)
  | 0 => throw .malformed
  | fuel + 1 => do
    if ← accept .blockEntry then
      let n ← nodeBefore fuel [.blockEntry, .key, .value, .blockEnd] true false
      return n :: (← bareItems fuel)
    return []

def blockEntries : Nat → Parse (List (Node × Node))
  | 0 => throw .malformed
  | fuel + 1 => do
    let followers : List Token := [.key, .value, .blockEnd]
    let newer := 1 < (← get).version.2
    let next ← peek
    if next = .key ∨ (newer ∧ next = .value) then
      let k ←
        if ← accept .key then nodeBefore fuel followers true true else missing
      let v ←
        if ← accept .value then nodeBefore fuel followers true true else missing
      return (k, v) :: (← blockEntries fuel)
    expect .blockEnd
    return []

/-- The items of a sequence in brackets; a pair among them is a mapping of its own. -/
def flowItems : Nat → Bool → Parse (List Node)
  | 0, _ => throw .malformed
  | fuel + 1, first => do
    if ← accept .flowSequenceEnd then return []
    if !first then expect .flowEntry
    if ← accept .flowSequenceEnd then return []
    let n ←
      if ← accept .key then
        let followers : List Token := [.flowEntry, .flowSequenceEnd]
        let k ← nodeBefore fuel (.value :: followers) false false
        let v ←
          if ← accept .value then nodeBefore fuel followers false false else missing
        pure (Node.mapping .mapping [(k, v)])
      else node fuel false false
    return n :: (← flowItems fuel false)

def flowEntries : Nat → Bool → Parse (List (Node × Node))
  | 0, _ => throw .malformed
  | fuel + 1, first => do
    if ← accept .flowMappingEnd then return []
    if !first then expect .flowEntry
    if ← accept .flowMappingEnd then return []
    let followers : List Token := [.flowEntry, .flowMappingEnd]
    let newer := 1 < (← get).version.2
    let next ← peek
    let e ←
      if next = .key ∨ (newer ∧ next = .value) then
        let k ←
          if ← accept .key then nodeBefore fuel (.value :: followers) false false else missing
        let v ←
          if ← accept .value then nodeBefore fuel followers false false else missing
        pure (k, v)
      else do
        let k ← node fuel false false
        pure (k, ← missing)
    return e :: (← flowEntries fuel false)

end

def directives : Nat → Bool → Parse Unit
  | 0, _ => throw .malformed
  | fuel + 1, versioned => do
    match ← peek with
    | .version major _ =>
      if versioned ∨ major ≠ 1 then throw .malformed
      drop
      directives fuel true
    | .handle name stem =>
      if ((← get).handles.lookup name).isSome then throw .malformed
      modify fun r => { r with handles := (name, stem) :: r.handles }
      drop
      directives fuel versioned
    | .directive =>
      drop
      directives fuel versioned
    | _ => return

def standardHandles : List (String × String) := [("!", "!"), ("!!", Tag.stem)]

def ending : Nat → Parse Unit
  | 0 => return
  | fuel + 1 => do
    if (← accept .documentEnd) && (← get).version == (1, 1) then ending fuel

def document (fuel : Nat) : Parse (Option Node) := do
  let n ← match ← peek with
    | .textEnd => return none
    | .version _ _ | .handle _ _ | .directive | .documentStart => do
      directives fuel false
      expect .documentStart
      modify fun r => { r with handles := r.handles ++ standardHandles }
      nodeBefore fuel [.documentEnd, .textEnd] true false
    | _ => do
      modify fun r => { r with handles := standardHandles }
      node fuel true false
  ending fuel
  if (← peek) = .textEnd then return some n
  throw .malformed

end Parse

def nodeOf (s : String) : Except Fault (Option Node × (Nat × Nat)) := do
  let (tokens, version) := tokensOf s
  let fuel := 4 * tokens.length + 8
  let start : Reading := { tokens, anchors := [], version, handles := [] }
  let (n, _) ← (Parse.document fuel).run start
  return (n, version)

end Pipeline.Yaml
