namespace Pipeline.Toml

abbrev Path := List String

inductive Place where
  | single
  | table
  | tables
deriving DecidableEq

abbrev Outline := List (Path × Place)

namespace Outline

def steps (p : Path) : List Path := (List.range p.length).map fun i => p.take (i + 1)

/-- Makes every path on the way to a path, itself included, a table unless it is one. -/
def reach (o : Outline) (p : Path) : Option Outline :=
  (steps p).foldlM (fun o q =>
    match o.lookup q with
    | none => some ((q, .table) :: o)
    | some .single => none
    | some _ => some o) o

def insert (o : Outline) (p : Path) : Option Outline := do
  let o ← o.reach p.dropLast
  if (o.lookup p).isSome then none else some ((p, .single) :: o)

def extend (o : Outline) (p : Path) : Option Outline := do
  let o ← o.reach p.dropLast
  match o.lookup p with
  | none => some ((p, .tables) :: o)
  | some .tables => some (o.filter fun e => !(p.isPrefixOf e.1 && e.1 != p))
  | some _ => none

end Outline

end Pipeline.Toml
