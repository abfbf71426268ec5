import Pipeline.Text.Blank
import Pipeline.Toml.Document

namespace Pipeline.Settings.Variable

def lowered (s : String) : String :=
  let word := Text.Blank.strip s
  if word = "True" ∨ word = "False" then String.ofList (s.toList.map Char.toLower) else s

/-- The value of a text. A whole number with too many digits is an error, not a text. -/
def read (s : String) : Except Toml.Fault Value :=
  let s := lowered s
  match Toml.Document.read ("key=" ++ s) with
  | .ok d => .ok ((d.get? ["key"]).getD (.text s))
  | .error .malformed => .ok (.text s)
  | .error f => .error f

end Pipeline.Settings.Variable
