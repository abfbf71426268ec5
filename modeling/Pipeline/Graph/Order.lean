import Pipeline.Graph.Edit
import Pipeline.Graph.Reach
import Pipeline.Graph.Error

namespace Pipeline.Graph

theorem length_edges_takeAway_le (g : Graph) (s : String) :
    (g.takeAway s).edges.length ≤ g.edges.length :=
  List.length_filter_le _ _

theorem queue_takeAway {g : Graph} {s : String}
    (h : (g.takeAway s).edges.length = g.edges.length) (e : End) :
    ((g.takeAway s).frontier e).queue = (g.frontier e).queue := by
  have hall : ∀ c ∈ g.edges, c.tail ≠ s ∧ c.head ≠ s := by
    simpa using List.length_filter_eq_length_iff.1 h
  have hout : g.outputs s = [] := by
    simp only [outputs, List.map_eq_nil_iff, List.filter_eq_nil_iff, decide_eq_true_eq]
    exact fun c hc => (hall c hc).1
  have hin : g.inputs s = [] := by
    simp only [inputs, List.map_eq_nil_iff, List.filter_eq_nil_iff, decide_eq_true_eq]
    exact fun c hc => (hall c hc).2
  cases e <;> simp [takeAway, hout, hin, frontier, Frontier.addAll, Frontier.discard]

theorem remove_decreases {g rest : Graph} {e : End} {s : String}
    (h : g.remove e = (some s, rest)) :
    Prod.Lex (· < ·) (· < ·) (rest.edges.length, (rest.frontier e).queue.length)
      (g.edges.length, (g.frontier e).queue.length) := by
  simp only [remove, Frontier.pop] at h
  split at h
  · simp at h
  · rename_i t f hp
    simp only [Prod.mk.injEq, Option.some.injEq] at h hp
    obtain ⟨rfl, rfl⟩ := h
    have hedges : (g.withFrontier e f).edges = g.edges := by cases e <;> rfl
    have hfront : (g.withFrontier e f).frontier e = f := by cases e <;> rfl
    rcases Nat.lt_or_eq_of_le (length_edges_takeAway_le (g.withFrontier e f) t) with hlt | heq
    · exact Prod.Lex.left _ _ (hedges ▸ hlt)
    · rw [queue_takeAway heq, heq, hedges, hfront, ← hp.2]
      exact Prod.Lex.right _ (Frontier.length_next_lt hp.1)

def drain (g : Graph) (e : End) : List String × Graph :=
  match _h : g.remove e with
  | (none, rest) => ([], rest)
  | (some s, rest) =>
    let drained := rest.drain e
    (s :: drained.1, drained.2)
termination_by (g.edges.length, (g.frontier e).queue.length)
decreasing_by exact remove_decreases _h

variable (g : Graph)

/-- The first stage of the tie-break among those that keep an output after both ends are
drained. -/
def cycleStart? : Option String :=
  let rest := (g.drain .source).2
  if rest.edges = [] then none
  else
    let core := (rest.drain .sink).2
    (g.ordered (core.stages.filter core.hasOutput)).head?

/-- Everything the start of a cycle report reaches in the whole graph. -/
def cycleReport : List String :=
  match g.cycleStart? with
  | none => []
  | some s => sortedNames (g.reach s [])

def linearize : Except GraphError (List String) :=
  match g.cycleReport with
  | [] => .ok (g.drain .source).1
  | stages => .error (.cycle stages)

end Pipeline.Graph
