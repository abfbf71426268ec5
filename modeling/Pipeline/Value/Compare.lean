import Pipeline.Value.Literal

namespace Pipeline

open Number

inductive Misuse where
  | notIterable (kind : String)
  | unhashable (kind : String)
  | unordered (left right : String)
  | notText (position : Nat) (kind : String)
  | notTieBreak (value : String)
  | tooFewArguments (function : String) (missing : List String)
  | tooManyArguments (function : String) (least most given : Nat)
  | notSpread (function kind : String)
  | fault (f : Value.Fault)
deriving DecidableEq

namespace Misuse

def accepted (least most : Nat) : String :=
  if least = most then "takes " ++ toString most ++ " positional arguments but "
  else "takes from " ++ toString least ++ " to " ++ toString most ++ " positional arguments but "

def message : Misuse → String
  | notIterable k => "'" ++ k ++ "' object is not iterable"
  | unhashable k => "unhashable type: '" ++ k ++ "'"
  | unordered l r =>
    "'<' not supported between instances of '" ++ l ++ "' and '" ++ r ++ "'"
  | notText i k => "sequence item " ++ toString i ++ ": expected str instance, " ++ k ++ " found"
  | notTieBreak v => v ++ " is not a valid TieBreak"
  | tooFewArguments f ps =>
    f ++ "() missing " ++ toString ps.length ++ " required positional argument" ++
      (if ps.length = 1 then "" else "s") ++ ": " ++
      " and ".intercalate (ps.map fun p => "'" ++ p ++ "'")
  | tooManyArguments f least most given =>
    f ++ "() " ++ accepted least most ++ toString given ++ " were given"
  | fault f => f.message
  | notSpread f k => f ++ "() argument after * must be an iterable, not " ++ k

end Misuse

namespace Value

def sameNumber (v w : Value) : Bool :=
  match v.number?, w.number? with
  | some a, some b => a.same b
  | _, _ => false

mutual

def same : Value → Value → Bool
  | null, null => true
  | text s, text t => s == t
  | tuple xs, tuple ys => sameList xs ys
  | list xs, list ys => sameList xs ys
  | set xs, set ys | set xs, frozenSet ys | frozenSet xs, set ys
  | frozenSet xs, frozenSet ys => xs.length == ys.length && allAmong xs ys
  | dict xs, dict ys => xs.length == ys.length && entriesAmong xs ys
  | mapping xs, mapping ys => xs.length == ys.length && pairsAmong xs ys
  | connection a b, connection c d => same a c && same b d
  | v, w => v.isNumber && w.isNumber && sameNumber v w

def sameList : List Value → List Value → Bool
  | [], [] => true
  | x :: xs, y :: ys => same x y && sameList xs ys
  | _, _ => false

def allAmong : List Value → List Value → Bool
  | [], _ => true
  | x :: xs, ys => ys.any (fun y => same x y) && allAmong xs ys

def entriesAmong : List (String × Value) → List (String × Value) → Bool
  | [], _ => true
  | (k, v) :: rest, ys => ys.any (fun e => e.1 == k && same v e.2) && entriesAmong rest ys

def pairsAmong : List (Value × Value) → List (Value × Value) → Bool
  | [], _ => true
  | (k, v) :: rest, ys => ys.any (fun e => same k e.1 && same v e.2) && pairsAmong rest ys

end

def distinct (items : List Value) : List Value :=
  (items.foldl (fun kept v => if kept.any (same v) then kept else v :: kept) []).reverse

def whole? : Value → Option Int
  | int n => some n
  | _ => none

/-- The members of a set made of a list. None is there twice, and whole numbers stand in ascending
order, as they do in a small set. -/
def gathered (items : List Value) : List Value :=
  match (distinct items).mapM whole? with
  | some ns => (ns.mergeSort fun a b => a ≤ b).map int
  | none => distinct items

mutual

def unhashable? : Value → Option String
  | list _ => some "list"
  | set _ => some "set"
  | dict _ | mapping _ => some "dict"
  | tuple items => unhashableIn? items
  | connection t h => (unhashable? t).or (unhashable? h)
  | _ => none

def unhashableIn? : List Value → Option String
  | [] => none
  | v :: rest => (unhashable? v).or (unhashableIn? rest)

end

def refusal (v : Value) (usual : Misuse) : Misuse :=
  match v.raises? with
  | some r => .fault (.raised r)
  | none => usual

def hashedItems (v : Value) : Except Misuse (List Value) :=
  match v.items? with
  | none => .error (v.refusal (.notIterable v.kind))
  | some items =>
    match unhashableIn? items with
    | some k => .error (.unhashable k)
    | none => .ok items

mutual

/-- Whether the first value comes before the second, for values that have an order. -/
def before : Value → Value → Except Misuse Bool
  | text s, text t => .ok (s < t)
  | tuple xs, tuple ys => listBefore xs ys
  | list xs, list ys => listBefore xs ys
  | set xs, set ys | set xs, frozenSet ys | frozenSet xs, set ys
  | frozenSet xs, frozenSet ys => .ok (xs.length < ys.length && allAmong xs ys)
  | v, w =>
    if v.isNumber && w.isNumber then
      match v.number?, w.number? with
      | some a, some b => .ok (a.lt b)
      | _, _ => .ok false
    else .error (.unordered v.kind w.kind)

def listBefore : List Value → List Value → Except Misuse Bool
  | _, [] => .ok false
  | [], _ :: _ => .ok true
  | x :: xs, y :: ys => if same x y then listBefore xs ys else before x y

end

/-- Places a value in a descending list, in front of the members that do not come after it. -/
def insertSorted (v : Value) : List Value → Except Misuse (List Value)
  | [] => .ok [v]
  | w :: rest => do
    if ← before v w then return w :: (← insertSorted v rest)
    return v :: w :: rest

/-- Members in ascending order; equal ones keep their order. -/
def sorted (items : List Value) : Except Misuse (List Value) := do
  return (← items.foldlM (fun placed v => insertSorted v placed) []).reverse

end Value

end Pipeline
