import Pipeline.Graph.Basic

namespace Pipeline.Graph

variable (g : Graph)

theorem unseen_length_lt {edges : List Connection} {seen fresh : List String} {s : String}
    (hs : s ∈ fresh) (hseen : s ∉ seen) (hedge : ∃ c ∈ edges, c.head = s) :
    (edges.filter fun c => c.head ∉ fresh ++ seen).length <
      (edges.filter fun c => c.head ∉ seen).length := by
  have hsplit : (edges.filter fun c => c.head ∉ fresh ++ seen) =
      (edges.filter fun c => c.head ∉ seen).filter fun c => c.head ∉ fresh := by
    rw [List.filter_filter]
    congr 1
    funext c
    simp [not_or]
  obtain ⟨c, hc, rfl⟩ := hedge
  rw [hsplit, List.length_filter_lt_length_iff_exists]
  exact ⟨c, by simp [hc, hseen], by simp [hs]⟩

/-- Follows the stages on a stack. A stage is seen when it is first met, and pushed unless it is
a stop. -/
def search (stops : List String) (stack seen : List String) : List String :=
  match stack with
  | [] => seen
  | s :: stack =>
    let fresh := (g.outputs s).filter (· ∉ seen)
    search stops (fresh.filter (· ∉ stops) ++ stack) (fresh ++ seen)
termination_by ((g.edges.filter fun c => c.head ∉ seen).length, stack.length)
decreasing_by
  cases hf : (g.outputs s).filter (· ∉ seen) with
  | nil => exact Prod.Lex.right _ (by simp)
  | cons t rest =>
    apply Prod.Lex.left
    have ht : t ∈ (g.outputs s).filter (· ∉ seen) := hf ▸ List.mem_cons_self
    have hmem := (List.mem_filter.1 ht).1
    have hnew := (List.mem_filter.1 ht).2
    exact unseen_length_lt (s := t) (by simp) (by simpa using hnew)
      ⟨⟨s, t⟩, mem_outputs.1 hmem, rfl⟩

def reach (start : String) (stops : List String) : List String := g.search stops [start] [start]

end Pipeline.Graph
