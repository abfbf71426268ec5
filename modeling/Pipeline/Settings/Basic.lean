import Pipeline.TieBreak
import Pipeline.Fields
import Pipeline.Text.Blank
import Pipeline.Text.Case

namespace Pipeline

open Number

inductive LogLevel where
  | debug
  | info
  | warning
  | error
deriving DecidableEq

namespace LogLevel

def text : LogLevel → String
  | debug => "DEBUG"
  | info => "INFO"
  | warning => "WARNING"
  | error => "ERROR"

def all : List LogLevel := [debug, info, warning, error]

def ofText? (s : String) : Option LogLevel := all.find? (·.text == s)

end LogLevel

structure Settings where
  tieBreak : TieBreak
  logLevel : LogLevel
  jsonLogs : Bool
deriving DecidableEq

namespace Settings

def standard : Settings := ⟨.lexicographic, .info, false⟩

inductive Fault where
  | tieBreak
  | logLevel
  | boolText
  | boolKind
  | brokenText (field : String)
  | frozen (field : String)
deriving DecidableEq

namespace Fault

def field : Fault → String
  | tieBreak => "tie_break"
  | logLevel => "log_level"
  | boolText | boolKind => "json_logs"
  | brokenText f | frozen f => f

def category : Fault → String
  | tieBreak => "enum"
  | logLevel => "literal_error"
  | boolText => "bool_parsing"
  | boolKind => "bool_type"
  | brokenText _ => "string_unicode"
  | frozen _ => "frozen_instance"

def message : Fault → String
  | tieBreak => "Input should be 'lexicographic' or 'insertion'"
  | logLevel => "Input should be 'DEBUG', 'INFO', 'WARNING' or 'ERROR'"
  | boolText => "Input should be a valid boolean, unable to interpret input"
  | boolKind => "Input should be a valid boolean"
  | brokenText _ => "Input should be a valid string, unable to parse raw data as a unicode string"
  | frozen _ => "Instance is frozen"

end Fault

def tieBreakNamed (s : String) : Except Fault TieBreak :=
  match TieBreak.ofText? s with
  | some t => .ok t
  | none => .error .tieBreak

/-- A tie-break is named in any case, with blanks around it; bytes name it as it is. -/
def tieBreakOf (v : Value) : Except Fault TieBreak :=
  match v with
  | .text s => tieBreakNamed (Text.Case.lower (Text.Blank.strip s))
  | .foreign (.bytes content) =>
    match Foreign.decoded? content with
    | some s => tieBreakNamed s
    | none => .error .tieBreak
  | .foreign .brokenText => .error (.brokenText "tie_break")
  | _ => .error .tieBreak

def logLevelOf (v : Value) : Except Fault LogLevel :=
  match v with
  | .text s => match LogLevel.ofText? (Text.Case.upper (Text.Blank.strip s)) with
    | some l => .ok l
    | none => .error .logLevel
  | .foreign .brokenText => .error (.brokenText "log_level")
  | _ => .error .logLevel

def noWords : List String := ["0", "off", "f", "false", "n", "no"]

def yesWords : List String := ["1", "on", "t", "true", "y", "yes"]

/-- A word for yes or no, in any case, without blanks around it. -/
def wordOf (s : String) : Except Fault Bool :=
  if noWords.any (Text.Case.sameAscii s) then .ok false
  else if yesWords.any (Text.Case.sameAscii s) then .ok true
  else .error .boolText

/-- Whole numbers of 64 bits are read like words; beyond them they are of the wrong kind. -/
def fitsWord (n : Int) : Bool := -0x8000000000000000 ≤ n && n < 0x8000000000000000

/-- Floats without a fraction are read like words strictly between the ends of that range. -/
def isWordLike (x : Binary64) : Bool :=
  x.isWhole && fitsWord x.truncate && x.truncate != -0x8000000000000000

def jsonLogsOf (v : Value) : Except Fault Bool :=
  match v with
  | .bool b => .ok b
  | .int n =>
    if n = 0 then .ok false
    else if n = 1 then .ok true
    else .error (if fitsWord n then .boolText else .boolKind)
  | .float x =>
    if x.isZero then .ok false
    else if x = Binary64.ofInt 1 then .ok true
    else .error (if isWordLike x then .boolText else .boolKind)
  | .text s => wordOf s
  | .foreign (.bytes content) =>
    match Foreign.decoded? content with
    | some s => wordOf s
    | none => .error .boolText
  | .foreign .brokenText => .error (.brokenText "json_logs")
  | _ => .error .boolKind

/-- Why a field cannot be set afterwards. Only names with an underscore in front may be. -/
def assign? (field : String) : Option Fault :=
  if field.toList.head? = some '_' then none else some (.frozen field)

def checked {α : Type} (check : Value → Except Fault α) (fallback : α) (v : Option Value) :
    Except Fault α :=
  match v with
  | some v => check v
  | none => .ok fallback

def faultOf {α : Type} : Except Fault α → List Fault
  | .ok _ => []
  | .error f => [f]

def ofFields (f : Fields) : Except (List Fault) Settings :=
  let tieBreak := checked tieBreakOf standard.tieBreak (f.get? "tie_break")
  let logLevel := checked logLevelOf standard.logLevel (f.get? "log_level")
  let jsonLogs := checked jsonLogsOf standard.jsonLogs (f.get? "json_logs")
  match tieBreak, logLevel, jsonLogs with
  | .ok t, .ok l, .ok j => .ok ⟨t, l, j⟩
  | t, l, j => .error (faultOf t ++ faultOf l ++ faultOf j)

end Settings

end Pipeline
