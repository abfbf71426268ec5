import Pipeline.Connection

namespace Pipeline

def sortedNames (names : List String) : List String := names.mergeSort (· ≤ ·)

inductive Kind where
  | general
  | invalid
  | construction
  | cycle
  | noSource
  | noSink
  | island
  | mutation
  | missing
  | duplicate
deriving DecidableEq

namespace Kind

def label : Kind → String
  | general => "StageGraphError"
  | invalid => "GraphValidationError"
  | construction => "ConstructionError"
  | cycle => "CycleError"
  | noSource => "NoSourceError"
  | noSink => "NoSinkError"
  | island => "IslandError"
  | mutation => "GraphMutationError"
  | missing => "MissingNodeError"
  | duplicate => "DuplicateNodeError"

def all : List Kind :=
  [general, invalid, construction, cycle, noSource, noSink, island, mutation, missing, duplicate]

def ofLabel? (s : String) : Option Kind := all.find? (·.label == s)

def ancestors : Kind → List Kind
  | general => [general]
  | invalid => [invalid, general]
  | construction => [construction, invalid, general]
  | cycle => [cycle, invalid, general]
  | noSource => [noSource, cycle, invalid, general]
  | noSink => [noSink, cycle, invalid, general]
  | island => [island, invalid, general]
  | mutation => [mutation, general]
  | missing => [missing, mutation, general]
  | duplicate => [duplicate, mutation, general]

end Kind

def Kind.stagesMessage (k : Kind) (names : String) : String :=
  match k with
  | .noSource =>
    "Stage graph does not have any sources. Remove the cycle formed by stages " ++ names ++ "."
  | .noSink =>
    "Stage graph does not have any sinks. Remove the cycle formed by stages " ++ names ++ "."
  | .island =>
    "Invalid stage graph. There is an island made up of stages " ++ names ++
      " (no other stages connect to them)."
  | _ => "Invalid stage graph. Stages " ++ names ++ " form a cycle."

def missingMessage (stage : Value) (room : Value.Room) : Except Value.Fault String := do
  return "Stage '" ++ (← stage.plain room) ++ "' does not exist in the graph."

def duplicateMessage (stage : Value) (room : Value.Room) : Except Value.Fault String := do
  return "Cannot insert stage '" ++ (← stage.plain room) ++ "' because it already exists."

inductive GraphError where
  | badItem (fault : Connection.Fault)
  | noConnections
  | noSource (stages : List String)
  | noSink (stages : List String)
  | cycle (stages : List String)
  | island (stages : List String)
  | missing (stage : Value)
  | missingTarget (stage : Value)
  | duplicate (stage : Value)
  | badName (name : Value)

namespace GraphError

def kind : GraphError → Kind
  | badItem _ | noConnections => .construction
  | noSource _ => .noSource
  | noSink _ => .noSink
  | cycle _ => .cycle
  | island _ => .island
  | missing _ | missingTarget _ => .missing
  | duplicate _ => .duplicate
  | badName _ => .mutation

def stages? : GraphError → Option (List String)
  | noSource s | noSink s | cycle s | island s => some s
  | _ => none

def stage? : GraphError → Option Value
  | missing s | missingTarget s | duplicate s => some s
  | _ => none

/-- The words for a finding. They are made before it is raised, so where they cannot be made it is
not the finding that comes out. -/
def message (e : GraphError) (room : Value.Room) : Except Value.Fault String :=
  match e with
  | badItem f => f.message room
  | noConnections => .ok "Cannot create a stage graph without any connections."
  | noSource s | noSink s | cycle s | island s =>
    .ok (e.kind.stagesMessage (", ".intercalate (sortedNames s)))
  | missing s => missingMessage s room
  | missingTarget s => do
    return "Cannot insert in front of stage '" ++ (← s.plain room) ++
      "' because it does not exist."
  | duplicate s => duplicateMessage s room
  | badName v => do
    return "Stage names must be non-empty strings, got " ++ (← v.literal room) ++ "."

end GraphError

end Pipeline
