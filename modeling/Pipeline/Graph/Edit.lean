import Pipeline.Graph.Basic

namespace Pipeline.Graph

variable (g : Graph)

/-- A stage enters behind all others; one that is there already stays where it is. -/
def addStage (s : String) : Graph :=
  if s ∈ g.stages then g
  else { g with
    stages := g.stages ++ [s]
    ranks := (s, g.nextRank) :: g.ranks
    nextRank := g.nextRank + 1 }

def connect (c : Connection) : Graph :=
  let g := (g.addStage c.tail).addStage c.head
  if c ∈ g.edges then g else { g with edges := g.edges ++ [c] }

def hasInput (s : String) : Bool := g.edges.any (·.head = s)

def hasOutput (s : String) : Bool := g.edges.any (·.tail = s)

/-- Decides from its connections at which ends a stage stands. A stage without any connection
stands at neither. -/
def refresh (s : String) : Graph :=
  { g with
    sources := if g.hasOutput s && !g.hasInput s then g.sources.add (g.entry s)
      else g.sources.discard s
    sinks := if g.hasInput s && !g.hasOutput s then g.sinks.add (g.entry s)
      else g.sinks.discard s }

def computeEnds : Graph :=
  g.stages.foldl refresh { g with sources := .empty, sinks := .empty }

/-- The graph of a list of connections, both ends known, nothing checked. -/
def draw (t : TieBreak) (cs : List Connection) : Graph :=
  (cs.foldl connect (empty t)).computeEnds

/-- The connections after a splice: those into the old stage lead to the new one, drawn behind
the others, and one leads from the new stage to the old. -/
def splicedEdges (name target : String) : List Connection :=
  (g.edges.filter fun c => c.head ≠ target) ++
    ((g.inputs target).map fun s => ⟨s, name⟩) ++ [⟨name, target⟩]

def splice (name target : String) : Graph :=
  let spliced := { g with
    stages := g.stages ++ [name]
    edges := g.splicedEdges name target
    ranks := (name, g.nextRank) :: g.ranks
    nextRank := g.nextRank + 1 }
  (spliced.refresh name).refresh target

def edgesWithout (s : String) : List Connection :=
  g.edges.filter fun c => c.tail ≠ s ∧ c.head ≠ s

/-- Takes a stage away with every connection that touches it. An output left without inputs
becomes a source, an input left without outputs a sink. -/
def takeAway (s : String) : Graph :=
  let rest := g.edgesWithout s
  let freeOutputs := (g.outputs s).filter fun t => !rest.any (·.head = t)
  let freeInputs := (g.inputs s).filter fun t => !rest.any (·.tail = t)
  { g with
    stages := g.stages.filter (· ≠ s)
    edges := rest
    sources := (g.sources.addAll (freeOutputs.map g.entry)).discard s
    sinks := (g.sinks.addAll (freeInputs.map g.entry)).discard s }

/-- Takes the next stage of one end away. Without one the graph loses only queue entries. -/
def remove (e : End) : Option String × Graph :=
  match (g.frontier e).pop with
  | (none, f) => (none, g.withFrontier e f)
  | (some s, f) => (some s, (g.withFrontier e f).takeAway s)

end Pipeline.Graph
