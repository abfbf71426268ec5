import Pipeline.TieBreak
import Pipeline.Connection
import Pipeline.Graph.Frontier

namespace Pipeline

inductive End where
  | source
  | sink
deriving DecidableEq

structure Graph where
  tieBreak : TieBreak
  stages : List String
  edges : List Connection
  /-- The place at which each name entered, the latest entry of a name first; names that have
  left keep theirs. -/
  ranks : List (String × Nat)
  nextRank : Nat
  sources : Frontier
  sinks : Frontier

namespace Graph

variable (g : Graph)

def empty (t : TieBreak) : Graph := ⟨t, [], [], [], 0, .empty, .empty⟩

def outputs (s : String) : List String := (g.edges.filter (·.tail = s)).map (·.head)

def inputs (s : String) : List String := (g.edges.filter (·.head = s)).map (·.tail)

/-- The connections grouped by their tails, in the order of the stages. -/
def connections : List Connection := g.stages.flatMap fun s => g.edges.filter (·.tail = s)

def rank (s : String) : Nat := (g.ranks.lookup s).getD 0

/-- The entry under which a stage is queued now. -/
def entry (s : String) : Entry :=
  match g.tieBreak with
  | .lexicographic => ⟨0, s⟩
  | .insertion => ⟨g.rank s, s⟩

def ordered (names : List String) : List String :=
  names.mergeSort fun s t => (g.entry s).le (g.entry t)

def frontier : End → Frontier
  | .source => g.sources
  | .sink => g.sinks

def withFrontier (e : End) (f : Frontier) : Graph :=
  match e with
  | .source => { g with sources := f }
  | .sink => { g with sinks := f }

theorem mem_outputs {g : Graph} {s t : String} : t ∈ g.outputs s ↔ ⟨s, t⟩ ∈ g.edges := by
  simp only [outputs, List.mem_map, List.mem_filter, decide_eq_true_eq]
  constructor
  · rintro ⟨⟨a, b⟩, ⟨h, rfl⟩, rfl⟩; exact h
  · intro h; exact ⟨_, ⟨h, rfl⟩, rfl⟩

theorem mem_inputs {g : Graph} {s t : String} : s ∈ g.inputs t ↔ ⟨s, t⟩ ∈ g.edges := by
  simp only [inputs, List.mem_map, List.mem_filter, decide_eq_true_eq]
  constructor
  · rintro ⟨⟨a, b⟩, ⟨h, rfl⟩, rfl⟩; exact h
  · intro h; exact ⟨_, ⟨h, rfl⟩, rfl⟩

theorem mem_connections {g : Graph} {c : Connection} :
    c ∈ g.connections ↔ c ∈ g.edges ∧ c.tail ∈ g.stages := by
  simp only [connections, List.mem_flatMap, List.mem_filter, decide_eq_true_eq]
  constructor
  · rintro ⟨s, hs, hc, rfl⟩; exact ⟨hc, hs⟩
  · rintro ⟨hc, hs⟩; exact ⟨_, hs, hc, rfl⟩

end Graph

end Pipeline
