import Pipeline.Value.Compare

namespace Pipeline

/-- Either the least name by code points, or the stage that entered the graph first. -/
inductive TieBreak where
  | lexicographic
  | insertion
deriving DecidableEq

namespace TieBreak

instance : Inhabited TieBreak := ⟨lexicographic⟩

def text : TieBreak → String
  | lexicographic => "lexicographic"
  | insertion => "insertion"

def label : TieBreak → String
  | lexicographic => "LEXICOGRAPHIC"
  | insertion => "INSERTION"

def all : List TieBreak := [lexicographic, insertion]

def ofText? (s : String) : Option TieBreak := all.find? (·.text == s)

def refusal (v : Value) : Misuse :=
  match v.literal none with
  | .ok l => .notTieBreak l
  | .error f => .fault f

def ofValue (v : Value) : Except Misuse TieBreak :=
  match v with
  | .text s => match ofText? s with
    | some t => .ok t
    | none => .error (refusal v)
  | _ => .error (refusal v)

theorem ofText?_text (t : TieBreak) : ofText? t.text = some t := by
  cases t <;> decide

end TieBreak

end Pipeline
