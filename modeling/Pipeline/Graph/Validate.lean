import Pipeline.Graph.Order

namespace Pipeline.Graph

variable (g : Graph)

def disjoint (xs ys : List String) : Bool := !xs.any (· ∈ ys)

def union (xs ys : List String) : List String := xs ++ ys.filter (· ∉ xs)

/-- One pass over the candidates: those that touch the island join it, the others remain. -/
def absorb (island : List String) : List (List String) → List String × List (List String)
  | [] => (island, [])
  | c :: rest =>
    if disjoint island c then
      let passed := absorb island rest
      (passed.1, c :: passed.2)
    else absorb (union island c) rest

theorem length_absorb_le (island : List String) (candidates : List (List String)) :
    (absorb island candidates).2.length ≤ candidates.length := by
  induction candidates generalizing island with
  | nil => simp [absorb]
  | cons c rest ih =>
    simp only [absorb]
    split
    · simpa using ih island
    · exact Nat.le_succ_of_le (ih _)

/-- Passes until no candidate remains, or until one pass absorbs nothing: then the island is cut
off. -/
def cutOff? (island : List String) (candidates : List (List String)) : Option (List String) :=
  if candidates = [] then none
  else
    let passed := absorb island candidates
    if passed.2.length = candidates.length then some passed.1 else cutOff? passed.1 passed.2
termination_by candidates.length
decreasing_by
  have := length_absorb_le island candidates
  have h : ¬(absorb island candidates).2.length = candidates.length := by assumption
  show (absorb island candidates).2.length < candidates.length
  omega

def sourceReaches : List (List String) :=
  (g.ordered g.sources.members).map fun s => g.reach s []

def checkIslands : Except GraphError Unit :=
  match g.sourceReaches with
  | [] => .ok ()
  | first :: others =>
    match cutOff? first others with
    | none => .ok ()
    | some island => .error (.island (sortedNames island))

/-- Whether the graph is one pipeline. Meaningful before stages have been taken away: what they
leave may well be split. -/
def validate : Except GraphError Unit := do
  if g.sources.members = [] then throw (.noSource g.cycleReport)
  if g.sinks.members = [] then throw (.noSink g.cycleReport)
  discard g.linearize
  g.checkIslands

end Pipeline.Graph
