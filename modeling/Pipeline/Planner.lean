import Pipeline.Graph.Build
import Pipeline.Graph.Same
import Pipeline.Log.Config
import Pipeline.Settings.Basic

namespace Pipeline

inductive Failure where
  | graph (e : GraphError)
  | misuse (m : Misuse)
  | log (f : Log.Fault)

def Failure.message : Failure → Value.Room → Except Value.Fault String
  | graph e, room => e.message room
  | misuse m, _ => .ok m.message
  | log f, _ => .ok f.message

namespace Planner

/-- A result and the lines written on the way to it. -/
structure Answer (α : Type) where
  result : Except Failure α
  lines : List String

def Answer.failed {α : Type} (f : Failure) : Answer α := ⟨.error f, []⟩

def Answer.andThen {α β : Type} (a : Answer α) (next : α → Answer β) : Answer β :=
  match a.result with
  | .ok x =>
    let b := next x
    ⟨b.result, a.lines ++ b.lines⟩
  | .error f => ⟨.error f, a.lines⟩

def loggerName : String := "stageplan.core.dag.graph"

variable (c : Log.Config) (time : String)

def note (event : String) (fields : Fields) : Answer Unit :=
  match c.log ⟨loggerName, .debug, "debug", event, [], [], fields⟩ time with
  | .ok line => ⟨.ok (), line.toList⟩
  | .error f => .failed (.log f)

def count (n : Nat) : Value := .int n

def names (ns : List String) : Value := .list ((sortedNames ns).map .text)

def passed (g : Graph) : Answer Unit :=
  note c time "Stage graph validated"
    [("stages", count g.stages.length), ("connections", count g.edges.length),
     ("sources", names g.sources.members), ("sinks", names g.sinks.members)]

def announced (made : Except GraphError Graph) : Answer Graph :=
  match made with
  | .error e => .failed (.graph e)
  | .ok g => (passed c time g).andThen fun _ => ⟨.ok g, []⟩

def tieBreakOf (v : Option Value) : Except Failure TieBreak :=
  match v with
  | none => .ok .lexicographic
  | some v => (TieBreak.ofValue v).mapError .misuse

def membersOf (v : Value) : Except Failure (List Value) :=
  match v.items? with
  | some items => .ok items
  | none => .error (.misuse (v.refusal (.notIterable v.kind)))

def empty (tieBreak : Option Value) : Except Failure Graph :=
  (tieBreakOf tieBreak).map Graph.empty

def build (items : Value) (tieBreak : Option Value) : Answer Graph :=
  match tieBreakOf tieBreak with
  | .error f => .failed f
  | .ok t =>
    match membersOf items with
    | .error f => .failed f
    | .ok items => announced c time (Graph.ofItems t items)

def rebuild (g : Graph) (tieBreak : Option Value) : Answer Graph :=
  match tieBreakOf tieBreak with
  | .error f => .failed f
  | .ok t => announced c time (Graph.ofConnections t g.connections)

def reachable (g : Graph) (stage stops : Value) : Except Failure (List String) :=
  match g.stage? stage with
  | none => .error (.graph (.missing stage))
  | some s =>
    match stops.hashedItems with
    | .error m => .error (.misuse m)
    | .ok stops => .ok (g.reach s (Graph.stopNames stops))

def subset (g : Graph) (stage stops : Value) : Answer Graph :=
  match reachable g stage stops with
  | .error f => .failed f
  | .ok reached =>
    (announced c time (Graph.ofConnections g.tieBreak (g.induced reached))).andThen fun sub =>
      (note c time "Extracted stage sub-graph"
        [("start", stage), ("stages", count sub.stages.length)]).andThen fun _ => ⟨.ok sub, []⟩

/-- Splices a stage in, then makes a record of it. The graph that comes out is spliced even if
the record cannot be made. -/
def insert (g : Graph) (name target : Value) : Graph × Answer Unit :=
  match g.insert name target with
  | .error e => (g, .failed (.graph e))
  | .ok spliced =>
    (spliced, note c time "Inserted stage"
      [("stage", name), ("in_front_of", target), ("inputs", names (g.inputsOf target))])

def configured (s : Settings) : Log.Config × Except Log.ConfigFault Unit :=
  c.configure (if s.jsonLogs then .json else .console) (.text s.logLevel.text)

end Planner

end Pipeline
