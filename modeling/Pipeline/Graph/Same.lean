import Pipeline.Graph.Basic
import Pipeline.Graph.Error

namespace Pipeline.Graph

def sameMembers {α : Type} [DecidableEq α] (xs ys : List α) : Bool :=
  xs.all (· ∈ ys) && ys.all (· ∈ xs)

theorem sameMembers_iff {α : Type} [DecidableEq α] {xs ys : List α} :
    sameMembers xs ys = true ↔ ∀ x, x ∈ xs ↔ x ∈ ys := by
  simp only [sameMembers, Bool.and_eq_true, List.all_eq_true, decide_eq_true_eq]
  exact ⟨fun h x => ⟨h.1 x, h.2 x⟩, fun h => ⟨fun x => (h x).1, fun x => (h x).2⟩⟩

def same (g h : Graph) : Bool :=
  sameMembers g.stages h.stages && sameMembers g.sources.members h.sources.members &&
    sameMembers g.sinks.members h.sinks.members && sameMembers g.edges h.edges

def distinct (gs : List Graph) : List Graph :=
  (gs.foldl (fun kept g => if kept.any g.same then kept else g :: kept) []).reverse

variable (g : Graph)

def sortedEdges : List Connection := g.edges.mergeSort Connection.le

def namesText (names : List String) : String :=
  Value.enclosed "[" "]" ((sortedNames names).map Text.Quoted.quoted)

def text : String :=
  "StageGraph(nodes=" ++ namesText g.stages ++ ", sources=" ++ namesText g.sources.members ++
    ", sinks=" ++ namesText g.sinks.members ++ ", connections=[" ++
    ", ".intercalate (g.sortedEdges.map fun c => c.tail ++ "->" ++ c.head) ++ "])"

end Pipeline.Graph
