import Pipeline.Fields
import Pipeline.Text.Blank
import Pipeline.Text.Case

namespace Pipeline.Settings.Names

open Text

def pointed : List Char → List Char
  | '_' :: '_' :: rest => '.' :: pointed rest
  | c :: rest => c :: pointed rest
  | [] => []

def beforePair : List Char → List Char
  | '_' :: '_' :: _ => []
  | c :: rest => c :: beforePair rest
  | [] => []

/-- A name in capitals. What stands behind two underscores stays as it is. -/
def inCapitals (k : String) : String :=
  let front := beforePair k.toList
  Case.upper (String.ofList front) ++ String.ofList (k.toList.drop front.length)

/-- A table that holds something; what it holds decides nothing. -/
def someTable : Value := .dict [("", .null)]

/-- Sets a value under a name, which is kept in capitals and without blanks around it. Where points
do not lead into tables they belong to the name. -/
def set (nested : Bool) (f : Fields) (k : String) (v : Value) : Fields :=
  let cs := pointed k.toList
  let spelled (cs : List Char) : String := Case.upper (Blank.strip (String.ofList cs))
  if nested && cs.contains '.' then f.put (spelled (cs.takeWhile (· != '.'))) someTable
  else f.put (spelled cs) v

def setAll (nested : Bool) (f g : Fields) : Fields :=
  g.foldl (fun f e => set nested f e.1 e.2) f

/-- The entries of a file in capitals. A name that is spelled twice keeps its first place and its
last value. -/
def merged (f : Fields) : Fields :=
  f.foldl (fun kept e => kept.put (inCapitals e.1) e.2) []

/-- The name of the entry by which a file says whether points lead into tables. -/
def nestingName : String := "dynaconf_dotted_lookup"

def isNested (f : Fields) : Bool :=
  let flag := match f.get? nestingName with
    | some .null | none => (merged f).get? (Case.upper nestingName)
    | some v => some v
  match flag with
  | some (.bool b) => b
  | some .null | none => true
  | some _ => false

def ofFile (f : Fields) : Fields := setAll (isNested f) [] (merged f)

def fields (f : Fields) : Fields := f.foldl (fun kept e => kept.put (Case.lower e.1) e.2) []

end Pipeline.Settings.Names
