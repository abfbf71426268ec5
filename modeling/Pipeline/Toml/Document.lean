import Pipeline.Toml.Value

namespace Pipeline.Toml

inductive Mark where
  | opened (p : Path)
  /-- Complete, with all paths behind it. -/
  | complete (p : Path)
deriving DecidableEq

structure Document where
  values : List (Path × Value)
  outline : Outline
  marks : List Mark
  /-- Tables opened by keys with points, which no header behind them may open. -/
  pending : List Path
  header : Path

namespace Document

def empty : Document := ⟨[], [], [], [], []⟩

def isOpened (d : Document) (p : Path) : Bool := d.marks.contains (.opened p)

def isComplete (d : Document) (p : Path) : Bool :=
  d.marks.any fun m =>
    match m with
    | .complete q => q.isPrefixOf p
    | .opened _ => false

def Mark.path : Mark → Path
  | .opened p => p
  | .complete p => p

def within (o : Option Outline) : Except Fault Outline :=
  match o with
  | some o => .ok o
  | none => .error .malformed

def settle (d : Document) : Document :=
  { d with marks := d.pending.map .opened ++ d.marks, pending := [] }

def openTable (d : Document) (p : Path) : Except Fault Document := do
  if d.isOpened p || d.isComplete p then throw .malformed
  let outline ← within (d.outline.reach p)
  return { d with outline, marks := .opened p :: d.marks, header := p }

/-- Opens a further table of a list. What was said about the one before does not count any more. -/
def openNext (d : Document) (p : Path) : Except Fault Document := do
  if d.isComplete p then throw .malformed
  let outline ← within (d.outline.extend p)
  let marks := d.marks.filter fun m => !p.isPrefixOf (Mark.path m)
  return { d with outline, marks := .opened p :: marks, header := p }

def isComposite (v : Value) : Bool :=
  match v with
  | .dict _ | .list _ => true
  | _ => false

def assign (d : Document) (p : Path) (v : Value) : Except Fault Document := do
  let whole := d.header ++ p
  let opens := (Outline.steps p).dropLast.map (d.header ++ ·)
  if opens.any d.isOpened || d.isComplete whole.dropLast then throw .malformed
  let outline ← within (d.outline.insert whole)
  let marks := if isComposite v then .complete whole :: d.marks else d.marks
  return { d with
    values := d.values ++ [(whole, v)], outline, marks, pending := opens ++ d.pending }

def line (d : Document) (fuel : Nat) (cs : List Char) : Except Fault (Document × List Char) := do
  match cs with
  | [] => return (d, [])
  | '\n' :: _ | '#' :: _ => return (d, cs)
  | '[' :: '[' :: rest =>
    let (p, cs) ← path fuel (skipGap rest)
    let d ← d.settle.openNext p
    return (d, skipGap (← behind "]]" cs))
  | '[' :: rest =>
    let (p, cs) ← path fuel (skipGap rest)
    let d ← d.settle.openTable p
    return (d, skipGap (← behind "]" cs))
  | _ =>
    let (p, v, cs) ← pair fuel cs
    return (← d.assign p v, skipGap cs)

def lines : Nat → Document → List Char → Except Fault Document
  | 0, _, _ => .error .malformed
  | fuel + 1, d, cs => do
    let (d, cs) ← d.line (fuel + 1) (skipGap cs)
    match ← skipComment cs with
    | [] => return d
    | '\n' :: rest => lines fuel d rest
    | _ => throw .malformed

def unified : List Char → List Char
  | '\r' :: '\n' :: rest => '\n' :: unified rest
  | c :: rest => c :: unified rest
  | [] => []

def read (s : String) : Except Fault Document :=
  let cs := unified s.toList
  lines (cs.length + 2) empty cs

def get? (d : Document) (p : Path) : Option Value := d.values.lookup p

end Document

end Pipeline.Toml
