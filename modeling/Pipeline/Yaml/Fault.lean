import Pipeline.Calendar
import Pipeline.Text.Quoted
import Pipeline.Number.Read

namespace Pipeline.Yaml

open Text.Quoted

inductive Fault where
  /-- The text is no single document, or asks for a kind of node that does not exist. -/
  | malformed
  /-- A numbered escape beyond the code points, or beyond 31 bits. -/
  | codePoint (beyondWord : Bool)
  | unknownVersion (major minor : Nat)
  | unknownWord (text : String)
  | emptyNumber
  | badInteger (base : Nat) (text : String)
  | tooLong (digits : Nat)
  | badReal (text : String)
  /-- An exponent mark more than once where the old rules look for one. -/
  | secondExponent
  | moment (f : Calendar.Fault)
  | unhashableKey (kind : String)
  | repeatedKey
deriving DecidableEq

namespace Fault

def literalLimit : Nat := 200

def message : Fault → String
  | malformed => "malformed document"
  | codePoint false => "chr() arg not in range(0x110000)"
  | codePoint true => "Python int too large to convert to C int"
  | unknownVersion major minor => "(" ++ toString major ++ ", " ++ toString minor ++ ")"
  | unknownWord s => quoted s
  | emptyNumber => "string index out of range"
  | badInteger base s =>
    "invalid literal for int() with base " ++ toString base ++ ": " ++
      String.ofList ((quoted s).toList.take literalLimit)
  | tooLong n => Number.Read.IntegerFault.limitMessage n
  | badReal s => "could not convert string to float: " ++ quoted s
  | secondExponent => "too many values to unpack (expected 2)"
  | moment f => f.message
  | unhashableKey k => "unhashable type: '" ++ k ++ "'"
  | repeatedKey => ""

end Fault

end Pipeline.Yaml
