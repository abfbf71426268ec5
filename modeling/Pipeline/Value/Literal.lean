import Pipeline.Value.Basic
import Pipeline.Text.Quoted
import Pipeline.Number.Decimal
import Pipeline.Number.Read

namespace Pipeline.Value

open Text.Quoted Number.Read

inductive Fault where
  | tooLong
  | tooDeep (doing : String)
  | raised (r : Raised)
deriving DecidableEq

namespace Fault

def label : Fault → String
  | tooLong => "ValueError"
  | tooDeep _ => "RecursionError"
  | raised r => r.label

def message : Fault → String
  | tooLong => limitMessage ""
  | tooDeep doing => "maximum recursion depth exceeded" ++ doing
  | raised r => r.words

end Fault

/-- How many calls may still be nested; none where nothing bounds them. -/
abbrev Room := Option Nat

/-- The room inside some calls, outer ones first, each given by what it does. -/
def Room.inside : Room → List String → Except Fault Room
  | none, _ => .ok none
  | some n, [] => .ok (some n)
  | some 0, doing :: _ => .error (.tooDeep doing)
  | some (n + 1), _ :: calls => inside (some n) calls

def showing : String := " while getting the repr of an object"

def writing : String := " while getting the str of an object"

def calling : String := " while calling a Python object"

/-- Code that runs says nothing about what it does. -/
def running : String := ""

def digits (n : Int) : Except Fault String :=
  if digitLimit < (Nat.toDigits 10 n.natAbs).length then .error .tooLong else .ok (toString n)

def enclosed (front back : String) (members : List String) : String :=
  front ++ ", ".intercalate members ++ back

def tupleText : List String → String
  | [m] => "(" ++ m ++ ",)"
  | ms => enclosed "(" ")" ms

mutual

/-- The literal of a value, inside the call that makes it. -/
def spell : Value → Room → Except Fault String
  | null, _ => .ok "None"
  | bool b, _ => .ok (if b then "True" else "False")
  | int n, _ => digits n
  | float x, _ => .ok (Number.Decimal.text x)
  | text s, _ => .ok (quoted s)
  | tuple items, room => do return tupleText (← spellAll items room)
  | list items, room => do return enclosed "[" "]" (← spellAll items room)
  | set [], _ => .ok "set()"
  -- The members of a set are shown as those of a list.
  | set items, room => do
    return enclosed "\x7b" "\x7d" (← spellAll items (← room.inside [showing]))
  | frozenSet [], _ => .ok "frozenset()"
  | frozenSet items, room => do
    return enclosed "frozenset(\x7b" "\x7d)" (← spellAll items (← room.inside [showing]))
  | dict entries, room => do return enclosed "\x7b" "\x7d" (← spellEntries entries room)
  | mapping entries, room => do return enclosed "\x7b" "\x7d" (← spellPairs entries room)
  | stream _, _ => .ok "<generator object>"
  | connection t h, room => do
    let room ← (← room.inside [running, calling]).inside [showing]
    return "Connection(from_stage=" ++ (← spell t room) ++ ", to_stage=" ++ (← spell h room) ++ ")"
  | foreign (.object _ (.inl r)), _ => .error (.raised r)
  | foreign (.object _ (.inr s)), _ => .ok s
  | foreign v, _ => .ok ("<" ++ v.kind ++ ">")

def spellAll : List Value → Room → Except Fault (List String)
  | [], _ => .ok []
  | v :: rest, room => do
    let first ← spell v (← room.inside [showing])
    return first :: (← spellAll rest room)

def spellEntries : List (String × Value) → Room → Except Fault (List String)
  | [], _ => .ok []
  | (k, v) :: rest, room => do
    let first ← spell v (← room.inside [showing])
    return (quoted k ++ ": " ++ first) :: (← spellEntries rest room)

def spellPairs : List (Value × Value) → Room → Except Fault (List String)
  | [], _ => .ok []
  | (k, v) :: rest, room => do
    let inner ← room.inside [showing]
    let key ← spell k inner
    let first ← spell v inner
    return (key ++ ": " ++ first) :: (← spellPairs rest room)

end

def literal (v : Value) (room : Room) : Except Fault String := do
  v.spell (← room.inside [showing])

def plain : Value → Room → Except Fault String
  | text s, _ => .ok s
  | int n, room => do
    let _ ← room.inside [writing]
    digits n
  | connection t h, room => do
    let room ← room.inside [calling, writing, running]
    return (← plain t room) ++ " -> " ++ (← plain h room)
  | v, room => do v.spell (← room.inside [calling, writing])

end Pipeline.Value
