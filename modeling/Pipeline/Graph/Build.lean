import Pipeline.Graph.Validate

namespace Pipeline.Graph

variable (g : Graph)

def ofConnections (t : TieBreak) (cs : List Connection) : Except GraphError Graph :=
  if cs = [] then .error .noConnections
  else do
    (draw t cs).validate
    return draw t cs

/-- The checked graph of items that should be connections; the first that is none ends it. -/
def ofItems (t : TieBreak) (items : List Value) : Except GraphError Graph := do
  ofConnections t (← (items.mapM Connection.ofItem).mapError .badItem)

def frozenMessage : String := "Frozen graph can't be modified"

def stage? (v : Value) : Option String :=
  match v with
  | .text s => if s ∈ g.stages then some s else none
  | _ => none

def has (v : Value) : Bool := (g.stage? v).isSome

def outputsOf (v : Value) : List String := ((g.stage? v).map g.outputs).getD []

def inputsOf (v : Value) : List String := ((g.stage? v).map g.inputs).getD []

/-- The names among values; what is no text stops nowhere. -/
def stopNames (stops : List Value) : List String :=
  stops.filterMap fun
    | .text s => some s
    | _ => none

def induced (names : List String) : List Connection :=
  g.connections.filter fun c => c.tail ∈ names ∧ c.head ∈ names

/-- The graph of the stages reached from a stage, built anew under the same tie-break. -/
def subset (start : String) (stops : List String) : Except GraphError Graph :=
  ofConnections g.tieBreak (g.induced (g.reach start stops))

def insert (name target : Value) : Except GraphError Graph := do
  let some target' := g.stage? target | throw (.missingTarget target)
  if g.has name then throw (.duplicate name)
  let some name' := name.stageName? | throw (.badName name)
  return g.splice name' target'

end Pipeline.Graph
