namespace Pipeline

/-- A place in a queue: lower ranks first, equal ranks by name. -/
structure Entry where
  rank : Nat
  name : String
deriving DecidableEq

namespace Entry

def le (a b : Entry) : Bool := a.rank < b.rank || (a.rank == b.rank && a.name ≤ b.name)

def insert (e : Entry) : List Entry → List Entry
  | [] => [e]
  | x :: rest => if e.le x then e :: x :: rest else x :: insert e rest

theorem mem_insert {e x : Entry} {q : List Entry} : x ∈ insert e q ↔ x = e ∨ x ∈ q := by
  induction q with
  | nil => simp [insert]
  | cons y rest ih =>
    simp only [insert]
    split <;> simp [ih, or_left_comm]

end Entry

structure Frontier where
  members : List String
  queue : List Entry

namespace Frontier

def empty : Frontier := ⟨[], []⟩

def add (f : Frontier) (e : Entry) : Frontier :=
  if e.name ∈ f.members then f else ⟨e.name :: f.members, e.insert f.queue⟩

def addAll (f : Frontier) (es : List Entry) : Frontier := es.foldl add f

/-- The entries of a stage stay in the queue. -/
def discard (f : Frontier) (s : String) : Frontier := ⟨f.members.filter (· ≠ s), f.queue⟩

def next (members : List String) : List Entry → Option String × List Entry
  | [] => (none, [])
  | e :: rest => if e.name ∈ members then (some e.name, rest) else next members rest

/-- Takes the next stage from the queue; it stays a member until it is discarded. -/
def pop (f : Frontier) : Option String × Frontier :=
  let taken := next f.members f.queue
  (taken.1, ⟨f.members, taken.2⟩)

theorem mem_members_add {f : Frontier} {e : Entry} {s : String} :
    s ∈ (f.add e).members ↔ s = e.name ∨ s ∈ f.members := by
  unfold add
  split
  · constructor
    · exact Or.inr
    · rintro (rfl | h)
      · assumption
      · exact h
  · simp

theorem mem_members_discard {f : Frontier} {s t : String} :
    t ∈ (f.discard s).members ↔ t ∈ f.members ∧ t ≠ s := by
  simp [discard]

theorem mem_of_next {members : List String} {q : List Entry} {s : String}
    (h : (next members q).1 = some s) : s ∈ members := by
  induction q with
  | nil => simp [next] at h
  | cons e rest ih =>
    simp only [next] at h
    split at h
    · rename_i hm
      simp only [Option.some.injEq] at h
      exact h ▸ hm
    · exact ih h

theorem length_next_lt {members : List String} {q : List Entry} {s : String}
    (h : (next members q).1 = some s) : (next members q).2.length < q.length := by
  induction q with
  | nil => simp [next] at h
  | cons e rest ih =>
    simp only [next] at h ⊢
    split
    · simp
    · rename_i hm
      simp only [hm] at h
      exact Nat.lt_succ_of_lt (ih (by simpa using h))

end Frontier

end Pipeline
