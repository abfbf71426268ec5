import Pipeline.Number.Read

namespace Pipeline.Toml

open Text.Blank

inductive Fault where
  | malformed
  | tooLong (digits : Nat)
deriving DecidableEq

def Fault.message : Fault → String
  | malformed => "malformed value"
  | tooLong n => Number.Read.IntegerFault.limitMessage n

def skipGap (cs : List Char) : List Char := cs.dropWhile isGap

def skipSpace (cs : List Char) : List Char := cs.dropWhile fun c => isGap c || c == '\n'

/-- Control characters stand in no string and no comment, the tab excepted. -/
def isControl (c : Char) : Bool := (c.toNat < 32 && c != '\t') || c.toNat == 127

def behind (front : String) (cs : List Char) : Except Fault (List Char) :=
  if front.toList.isPrefixOf cs then .ok (cs.drop front.length) else .error .malformed

def skipComment (cs : List Char) : Except Fault (List Char) :=
  match cs with
  | '#' :: rest =>
    if (rest.takeWhile (· != '\n')).any isControl then .error .malformed
    else .ok (rest.dropWhile (· != '\n'))
  | _ => .ok cs

def skipLines : Nat → List Char → Except Fault (List Char)
  | 0, cs => .ok cs
  | fuel + 1, cs =>
    match skipSpace cs with
    | '#' :: rest => do skipLines fuel (← skipComment ('#' :: rest))
    | cs => .ok cs

end Pipeline.Toml
