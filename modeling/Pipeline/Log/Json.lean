import Pipeline.Fields
import Pipeline.Text.Escaped
import Pipeline.Value.Literal

namespace Pipeline.Log.Json

open Text.Escaped

inductive Doc where
  | word (s : String)
  | text (s : String)
  | array (items : List Doc)
  | object (members : List (String × Doc))

def floatText (x : Number.Binary64) : String :=
  if x.isNaN then "NaN"
  else if x.isInfinite then (if x.isNegative then "-Infinity" else "Infinity")
  else Number.Decimal.text x

def wordOf? : Value → Option String
  | .null => some "null"
  | .bool b => some (if b then "true" else "false")
  | .int n => (Value.digits n).toOption
  | .float x => some (floatText x)
  | _ => none

/-- A key is a text, or the word of a value that is written as one. -/
def keyOf? : Value → Option String
  | .text s => some s
  | v => wordOf? v

mutual

/-- The document of a value. Tuples are arrays; what JSON has no form for is a text, its literal. -/
def Doc.ofValue? : Value → Option Doc
  | .null => (wordOf? .null).map .word
  | .bool b => (wordOf? (.bool b)).map .word
  | .int n => (wordOf? (.int n)).map .word
  | .float x => (wordOf? (.float x)).map .word
  | .text s => some (.text s)
  | .tuple items => (Doc.ofValues? items).map .array
  | .list items => (Doc.ofValues? items).map .array
  | .dict entries => (Doc.ofEntries? entries).map .object
  | .mapping entries => (Doc.ofPairs? entries).map .object
  | v => (v.literal none).toOption.map .text

def Doc.ofValues? : List Value → Option (List Doc)
  | [] => some []
  | v :: rest => do return (← Doc.ofValue? v) :: (← Doc.ofValues? rest)

def Doc.ofEntries? : List (String × Value) → Option (List (String × Doc))
  | [] => some []
  | (k, v) :: rest => do return (k, ← Doc.ofValue? v) :: (← Doc.ofEntries? rest)

def Doc.ofPairs? : List (Value × Value) → Option (List (String × Doc))
  | [] => some []
  | (k, v) :: rest => do return (← keyOf? k, ← Doc.ofValue? v) :: (← Doc.ofPairs? rest)

end

mutual

def Doc.line : Doc → String
  | .word s => s
  | .text s => escaped s
  | .array items => Value.enclosed "[" "]" (Doc.lines items)
  | .object members => Value.enclosed "\x7b" "\x7d" (Doc.memberLines members)

def Doc.lines : List Doc → List String
  | [] => []
  | d :: rest => d.line :: Doc.lines rest

def Doc.memberLines : List (String × Doc) → List String
  | [] => []
  | (k, d) :: rest => (escaped k ++ ": " ++ d.line) :: Doc.memberLines rest

end

def line? (f : Fields) : Option String := (Doc.ofEntries? f).map fun ms => (Doc.object ms).line

end Pipeline.Log.Json
