import Pipeline.Fields
import Pipeline.Value.Literal

namespace Pipeline.Log.Console

def padded (width : Nat) (s : String) : String :=
  String.ofList (s.toList ++ List.replicate (width - s.length) ' ')

def severityWidth : Nat := 9

def eventWidth : Nat := 30

/-- A text that holds one of these is written as a literal. -/
def needsQuotes (c : Char) : Bool :=
  c == ' ' || c == '\t' || c == '=' || c == '\r' || c == '\n' || c == '"' || c == '\x27'

def fieldText (v : Value) : Except Value.Fault String :=
  match v with
  | .text s => if s.toList.any needsQuotes then v.literal none else .ok s
  | _ => v.literal none

def bracketed (s : String) : String := "[" ++ s ++ "]"

def namedText (k : String) (v : Value) : Except Value.Fault String :=
  (fieldText v).map fun s => k ++ "=" ++ s

def columns : List (String × (Value → Except Value.Fault String)) :=
  [("", namedText ""),
   ("timestamp", fun v => v.plain none),
   ("level", fun v => (v.plain none).map fun s => bracketed (padded severityWidth s)),
   ("event", fun v => (v.plain none).map (padded eventWidth)),
   ("logger", fun v => (v.plain none).map bracketed),
   ("logger_name", fun v => (v.plain none).map bracketed)]

/-- Fields for what follows the line, which no column and no name shows. -/
def trailing : List String := ["stack", "exception", "exc_info"]

def hasColumn (k : String) : Bool := columns.any (·.1 == k)

def named (f : Fields) : Fields :=
  (f.filter fun e => !hasColumn e.1 && !trailing.contains e.1).mergeSort fun a b => a.1 ≤ b.1

def parts (f : Fields) : Except Value.Fault (List String) := do
  let shown ← (columns.filterMap fun c => (f.get? c.1).map c.2).mapM id
  let rest ← (named f).mapM fun e => namedText e.1 e.2
  return shown ++ rest

def rule : String := "\n\n" ++ String.ofList (List.replicate 79 '=') ++ "\n"

/-- The text of a trailing field; one that is neither a text nor absent cannot be written. -/
def trailingText? (f : Fields) (k : String) : Option (Option String) :=
  match f.get? k with
  | none | some .null => some none
  | some (.text s) => some (some s)
  | some _ => none

def text? (f : Fields) : Option String := do
  let stack ← trailingText? f "stack"
  let raised ← trailingText? f "exception"
  let pending := ((f.get? "exc_info").map Value.truthy).getD false
  let shown ← (parts f).toOption
  let first := " ".intercalate (shown.filter (· ≠ ""))
  let second := match stack with
    | some s => "\n" ++ s ++ if pending || raised.isSome then rule else ""
    | none => ""
  return first ++ second ++ (raised.map ("\n" ++ ·)).getD ""

end Pipeline.Log.Console
