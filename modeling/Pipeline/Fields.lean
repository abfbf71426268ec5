import Pipeline.Value.Basic

namespace Pipeline

abbrev Fields := List (String × Value)

namespace Fields

def get? : Fields → String → Option Value
  | [], _ => none
  | e :: f, k => if e.1 = k then some e.2 else get? f k

def has (f : Fields) (k : String) : Bool := (f.get? k).isSome

/-- A name that is there keeps its place and gets the new value. -/
def put : Fields → String → Value → Fields
  | [], k, v => [(k, v)]
  | e :: f, k, v => if e.1 = k then (k, v) :: f else e :: put f k v

/-- A name that is there keeps its value too. -/
def putNew (f : Fields) (k : String) (v : Value) : Fields := if f.has k then f else f.put k v

def erase (f : Fields) (k : String) : Fields := f.filter (·.1 ≠ k)

def update (f g : Fields) : Fields := g.foldl (fun f e => f.put e.1 e.2) f

def fill (f g : Fields) : Fields := g.foldl (fun f e => f.putNew e.1 e.2) f

theorem get?_put (f : Fields) (k l : String) (v : Value) :
    (f.put k v).get? l = if k = l then some v else f.get? l := by
  induction f with
  | nil => rfl
  | cons e f ih =>
    by_cases h : e.1 = k
    · by_cases hl : k = l <;> simp [put, get?, h, hl]
    · by_cases hl : k = l
      · subst hl
        simp [put, get?, h, ih]
      · simp [put, get?, h, hl, ih]

theorem get?_putNew (f : Fields) (k l : String) (v : Value) :
    (f.putNew k v).get? l = if k = l then some ((f.get? k).getD v) else f.get? l := by
  unfold putNew has
  by_cases hl : k = l
  · subst hl
    cases hf : f.get? k <;> simp [hf, get?_put]
  · cases hf : f.get? k <;> simp [get?_put, hl]

theorem get?_erase (f : Fields) (k l : String) :
    (f.erase k).get? l = if k = l then none else f.get? l := by
  induction f with
  | nil => simp [erase, get?]
  | cons e f ih =>
    simp only [erase] at ih
    by_cases h : e.1 = k
    · by_cases hl : k = l
      · simpa [erase, h, hl] using ih
      · simpa [erase, get?, h, hl] using ih
    · by_cases hl : k = l
      · subst hl
        simpa [erase, get?, h] using ih
      · simp [erase, get?, h, hl] at ih ⊢
        rw [ih]

end Fields

end Pipeline
