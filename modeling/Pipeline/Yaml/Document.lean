import Pipeline.Yaml.Node
import Pipeline.Value.Compare
import Pipeline.Fields

namespace Pipeline.Yaml

namespace Node

mutual

def depth : Node → Nat
  | scalar _ _ => 1
  | sequence _ items => itemsDepth items + 1
  | mapping _ entries => entriesDepth entries + 1

def itemsDepth : List Node → Nat
  | [] => 0
  | n :: rest => max (depth n) (itemsDepth rest)

def entriesDepth : List (Node × Node) → Nat
  | [] => 0
  | (k, v) :: rest => max (max (depth k) (depth v)) (entriesDepth rest)

end

/-- The text of a node where a scalar is wanted; a mapping gives that of its equals sign. -/
def content? : Nat → Node → Option Content
  | 0, _ => none
  | fuel + 1, n =>
    match n with
    | scalar _ c => some c
    | sequence _ _ => none
    | mapping _ entries =>
      match entries.find? fun e => e.1.tag == .value with
      | some e => content? fuel e.2
      | none => none

def asKey : Node → Node
  | scalar .value c => scalar .text c
  | n => n

/-- What a merge key puts in: the entries of a mapping, or those of the mappings in a sequence, of
which the first comes last, so that it wins. -/
def mergedBy (whole : List (Node × Node) → Except Fault (List (Node × Node))) (n : Node) :
    Except Fault (List (Node × Node)) :=
  match n with
  | mapping _ es => whole es
  | sequence _ items => do
    let groups ← items.mapM fun
      | mapping _ es => whole es
      | _ => throw .malformed
    return groups.reverse.flatten
  | scalar _ _ => .error .malformed

def entries : Nat → List (Node × Node) → Except Fault (List (Node × Node) × List (Node × Node))
  | 0, _ => .error .malformed
  | fuel + 1, es => do
    let whole (es : List (Node × Node)) := (entries fuel es).map fun r => r.1 ++ r.2
    let merged ← es.foldlM (fun merged e => do
      if e.1.tag != .merge then return merged
      if !merged.isEmpty then throw .malformed
      mergedBy whole e.2) []
    return (merged, (es.filter (·.1.tag != .merge)).map fun e => (asKey e.1, e.2))

def single (n : Node) : Except Fault (Node × Node) :=
  match n with
  | mapping _ [e] => .ok e
  | _ => .error .malformed

end Node

/-- A key as it stands in a mapping, where a list counts as a tuple. -/
def keyOf (k : Value) : Except Fault Value :=
  match k with
  | .list items => .ok (.tuple items)
  | .dict _ | .set _ => .error .malformed
  | k => .ok k

def checkKey (k : Value) : Except Fault Unit :=
  match k.unhashable? with
  | some kind => .error (.unhashableKey kind)
  | none => .ok ()

def checkFresh (earlier : List Value) (k : Value) : Except Fault Unit :=
  if earlier.any k.same then .error .repeatedKey else .ok ()

/-- The keys of a mapping differ too, unless it merges others. -/
def checkDistinct (merged : List (Node × Node)) (earlier : List Value) (k : Value) :
    Except Fault Unit :=
  if merged.isEmpty && earlier.any k.same then .error .malformed else .ok ()

def textEntries (es : List (Value × Value)) : Fields :=
  es.foldl (fun f e => match e.1 with | .text k => f.put k e.2 | _ => f) []

def scalarValue (version : Nat × Nat) (fuel : Nat) (n : Node) : Except Fault Value :=
  match n.content? fuel with
  | none => .error .malformed
  | some (some cs) => n.tag.read version (String.ofList cs)
  | some none => if n.tag = .text then .ok (.foreign .brokenText) else .error .malformed

section Entries

variable {α : Type} (key : Node → Except Fault Value) (read : Node → Except Fault α)

def readEntries (merged : List (Node × Node)) :
    List Value → List (Node × Node) → Except Fault (List (Value × α))
  | _, [] => .ok []
  | earlier, (k, v) :: rest => do
    let k ← keyOf (← key k)
    let v ← read v
    checkKey k
    checkDistinct merged earlier k
    return (k, v) :: (← readEntries merged (k :: earlier) rest)

def readSingles : List Value → List Node → Except Fault (List (Value × α))
  | _, [] => .ok []
  | earlier, n :: rest => do
    let (k, v) ← n.single
    let k ← key k
    checkKey k
    checkFresh earlier k
    let v ← read v
    return (k, v) :: (← readSingles (k :: earlier) rest)

end Entries

def valueOf (version : Nat × Nat) : Nat → Node → Except Fault Value
  | 0, _ => .error .malformed
  | fuel + 1, n => do
    if !n.tag.isCollection then return ← scalarValue version (fuel + 1) n
    let read := valueOf version fuel
    match n.tag, n with
    | .sequence, .sequence _ items => return .list (← items.mapM read)
    | .mapping, .mapping _ es | .set, .mapping _ es =>
      let (merged, own) ← Node.entries (fuel + 1) es
      let found ← readEntries read read merged [] (merged ++ own)
      return if n.tag = .set then .set (Value.distinct (found.map (·.1)))
        else .dict (textEntries found)
    | .orderedMapping, .sequence _ items =>
      return .dict (textEntries (← readSingles read read [] items))
    | .pairs, .sequence _ items =>
      return .list (← items.mapM fun m => do
        let (k, v) ← m.single
        return .tuple [← read k, ← read v])
    | _, _ => throw .malformed

/-- Reads a member of a collection unless it is a collection itself, which then waits. -/
def member (version : Nat × Nat) (fuel : Nat) (n : Node) : Except Fault (List Node) := do
  if n.tag.isCollection then return [n]
  let _ ← scalarValue version fuel n
  return []

/-- A key that is a collection counts by its kind alone while it waits. -/
def waitingKey (version : Nat × Nat) (fuel : Nat) (n : Node) : Except Fault Value :=
  match n.tag with
  | .sequence | .pairs => .ok (.list [])
  | .mapping | .orderedMapping => .ok (.dict [])
  | .set => .ok (.set [])
  | _ => scalarValue version fuel n

def openUp (version : Nat × Nat) (fuel : Nat) (n : Node) : Except Fault (List Node) := do
  match n.tag, n with
  | .sequence, .sequence _ items => return (← items.mapM (member version fuel)).flatten
  | .mapping, .mapping _ es | .set, .mapping _ es =>
    let (merged, own) ← Node.entries fuel es
    let found ← readEntries (valueOf version fuel) (member version fuel) merged [] (merged ++ own)
    return found.flatMap (·.2)
  | .orderedMapping, .sequence _ items =>
    let found ← readSingles (waitingKey version fuel) (member version fuel) [] items
    return found.flatMap (·.2)
  | .pairs, .sequence _ items =>
    return (← items.mapM fun m => do
      let (k, v) ← m.single
      return (← member version fuel k) ++ (← member version fuel v)).flatten
  | _, _ => throw .malformed

/-- Reads collections and what is in them, level by level. -/
def openLevels (version : Nat × Nat) (fuel : Nat) : Nat → List Node → Except Fault Unit
  | _, [] => .ok ()
  | 0, _ => .error .malformed
  | levels + 1, ns => do
    openLevels version fuel levels (← ns.mapM (openUp version fuel)).flatten

def read (s : String) : Except Fault Value := do
  let (n, version) ← nodeOf s
  match n with
  | none => return .null
  | some n =>
    let fuel := n.depth + 1
    openLevels version fuel fuel (← member version fuel n)
    valueOf version fuel n

end Pipeline.Yaml
