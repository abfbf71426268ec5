import Pipeline.Value.Compare

namespace Pipeline

structure Connection where
  tail : String
  head : String
deriving DecidableEq

namespace Connection

def toValue (c : Connection) : Value := .connection (.text c.tail) (.text c.head)

def le (c d : Connection) : Bool := c.tail < d.tail || (c.tail == d.tail && c.head ≤ d.head)

/-- Why a field of a connection cannot be set: connections cannot be changed, and have no other
fields. -/
inductive AssignFault where
  | frozen (field : String)
  | noField
deriving DecidableEq

def AssignFault.message : AssignFault → String
  | frozen f => "cannot assign to field " ++ Text.Quoted.quoted f
  | noField => "super(type, obj): obj must be an instance or subtype of type"

def fieldNames : List String := ["from_stage", "to_stage"]

def assign (field : String) : AssignFault :=
  if fieldNames.contains field then .frozen field else .noField

inductive Fault where
  | textItem (s : String)
  | notPair (item : Value)
  | badName (part item : Value)
  /-- The item raised something of its own while it was taken apart. -/
  | broken (r : Raised)

def Fault.message : Fault → Value.Room → Except Value.Fault String
  | textItem s, room => do
    return "Connection must be a (from, to) pair, got string " ++
      (← (Value.text s).literal room) ++ "."
  | notPair item, room => do
    return "Connection must be a Connection or a (from, to) pair, got " ++
      (← item.literal room) ++ "."
  | badName part item, room => do
    return "Stage names must be non-empty strings, got " ++ (← part.literal room) ++
      " in connection " ++ (← item.literal room) ++ "."
  | broken r, _ => .error (.raised r)

/-- The two ends of an item. Type errors and value errors that it raises are taken for its not being
a pair. -/
def ends (item : Value) : Except Fault (Value × Value) :=
  match item with
  | .connection t h => .ok (t, h)
  | .text s => .error (.textItem s)
  | .foreign (.faulty r) => .error (if r.isUsual then .notPair item else .broken r)
  | _ => match item.items? with
    | some [t, h] => .ok (t, h)
    | _ => .error (.notPair item)

/-- The tail is looked at before the head. -/
def ofItem (item : Value) : Except Fault Connection := do
  let (t, h) ← ends item
  let some tail := t.stageName? | throw (.badName t item)
  let some head := h.stageName? | throw (.badName h item)
  return ⟨tail, head⟩

def makerName : String := "Connection.of"

def ofParts (v : Value) : Except Misuse Value :=
  match v.items? with
  | none => .error (v.refusal (.notSpread ("stageplan.contracts.connection." ++ makerName) v.kind))
  | some [] => .error (.tooFewArguments makerName fieldNames)
  | some [_] => .error (.tooFewArguments makerName fieldNames.tail)
  | some [t, h] => .ok (.connection t h)
  | some items => .error (.tooManyArguments makerName 3 3 (items.length + 1))

/-- The connections of some parts, none of them twice. Each has to be fit for a set. -/
def gather (parts : List Value) : Except Misuse (List Value) := do
  let made ← parts.mapM fun v => do
    let c ← ofParts v
    match c.unhashable? with
    | some k => throw (.unhashable k)
    | none => return c
  return Value.distinct made

end Connection

end Pipeline
