import Pipeline.Settings.Basic
import Pipeline.Settings.Names
import Pipeline.Settings.Variable
import Pipeline.Yaml.Document

namespace Pipeline.Settings

inductive LoadFault where
  | noFile (path : String)
  | file (f : Yaml.Fault)
  /-- A file that holds something, but no entries. -/
  | notEntries (kind : String)
  | given (f : Toml.Fault)
  | invalid (faults : List Fault)

def tidyPath (path : String) : String :=
  let steps := (path.splitOn "/").filter fun s => s ≠ "" ∧ s ≠ "."
  let slashes := (path.toList.takeWhile (· = '/')).length
  let root := if slashes = 0 then "" else if slashes = 2 then "//" else "/"
  let tidy := root ++ "/".intercalate steps
  if tidy = "" then "." else tidy

def LoadFault.message : LoadFault → String
  | noFile path => "Config file not found: " ++ tidyPath path
  | file f => f.message
  | notEntries k => "'" ++ k ++ "' object has no attribute 'get'"
  | given f => f.message
  | invalid _ => ""

/-- The entries of a document. What counts as no stands for none. -/
def entriesOf (v : Value) : Except LoadFault Fields :=
  match v with
  | .dict f => .ok f
  | v => if v.truthy then .error (.notEntries v.kind) else .ok []

def readFile (s : String) : Except LoadFault Fields := do
  let v ← (Yaml.read s).mapError .file
  return Names.ofFile (← entriesOf v)

/-- The values of variables, all of them read before any is used. -/
def readVariables (vars : List (String × String)) : Except LoadFault Fields :=
  vars.mapM fun e => do
    let v ← (Variable.read e.2).mapError .given
    return (e.1, v)

def load (file : Option String) (vars : List (String × String)) : Except LoadFault Settings := do
  let entries ← match file with
    | none => pure []
    | some s => readFile s
  let given ← readVariables vars
  (ofFields (Names.fields (Names.setAll true entries given))).mapError .invalid

end Pipeline.Settings
