import Pipeline.Log.Record
import Pipeline.Log.Json
import Pipeline.Log.Console
import Pipeline.Text.Case

namespace Pipeline.Log

inductive Form where
  | json
  | console
deriving DecidableEq

structure Config where
  form : Form
  threshold : Nat
  handlers : Nat
  context : Fields

inductive ConfigFault where
  | levelNotText (kind : String)
  | unknownLevel (name : String)
  | levelText (text : String)
  | levelOther (literal : String)
deriving DecidableEq

namespace ConfigFault

def message : ConfigFault → String
  | levelNotText k => "'" ++ k ++ "' object has no attribute 'upper'"
  | unknownLevel n => "module 'logging' has no attribute '" ++ n ++ "'"
  | levelText s => "Unknown level: " ++ Text.Quoted.quoted s
  | levelOther l => "Level not an integer or a valid string: " ++ l

end ConfigFault

namespace Config

/-- The form is set before the threshold is looked at, so a name that stands for something that
is no threshold leaves the new form with the old threshold. A name that stands for nothing
changes nothing. -/
def configure (c : Config) (form : Form) (level : Value) : Config × Except ConfigFault Unit :=
  match level with
  | .text s =>
    let name := Text.Case.upper s
    match Threshold.ofName? name with
    | none => (c, .error (.unknownLevel name))
    | some (.number n) => ({ c with form, threshold := n, handlers := 1 }, .ok ())
    | some (.text t) => ({ c with form, handlers := 1 }, .error (.levelText t))
    | some (.other l) => ({ c with form, handlers := 1 }, .error (.levelOther l))
  | v => (c, .error (.levelNotText v.kind))

def bindContext (c : Config) (f : Fields) : Config := { c with context := c.context.update f }

def clearContext (c : Config) : Config := { c with context := [] }

def shows (c : Config) (s : Severity) : Bool := c.threshold ≤ s.number

/-- The text of a record; a record that cannot be written leaves none. -/
def write? (c : Config) (f : Fields) : Option String :=
  match c.form with
  | .json => Json.line? (f.erase raisedKey)
  | .console => Console.text? f

def log (c : Config) (call : Call) (time : String) : Except Fault (Option String) := do
  let f ← call.record c.context time
  return if c.shows call.severity then c.write? f else none

/-- A plain call looks at the severity first, and a fault in its record is kept to itself. -/
def logPlain (c : Config) (call : Call) (time : String) : Option String :=
  if c.shows call.severity then
    match call.plainRecord c.context time with
    | .ok f => c.write? f
    | .error _ => none
  else none

end Config

end Pipeline.Log
