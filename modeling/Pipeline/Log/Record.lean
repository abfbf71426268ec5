import Pipeline.Fields
import Pipeline.Log.Severity
import Pipeline.Template.Fill
import Pipeline.Value.Compare

namespace Pipeline.Log

inductive Fault where
  | misuse (m : Misuse)
  | template (f : Template.Fault)
  | noLoggerName (kind : String)
  | notSized (kind : String)
  | notIndexed (kind : String)
  /-- A dictionary has no first member. -/
  | noFirst
  | repeatedArgument (function parameter : String)

namespace Fault

def message : Fault → String
  | misuse m => m.message
  | template f => f.message
  | noLoggerName k => "'" ++ k ++ "' object has no attribute 'name'"
  | notSized k => "object of type '" ++ k ++ "' has no len()"
  | notIndexed k => "'" ++ k ++ "' object is not subscriptable"
  | noFirst => "0"
  | repeatedArgument f p => f ++ "() got multiple values for argument '" ++ p ++ "'"

end Fault

structure Call where
  logger : String
  severity : Severity
  /-- The name the severity was called by. -/
  method : String
  event : String
  arguments : List Value
  bound : Fields
  fields : Fields

def loggerName (s : String) : String := if s = "" then "root" else s

def argumentsKey : String := "positional_args"

def recordKey : String := "_record"

def originKey : String := "_from_structlog"

def stackKey : String := "stack_info"

def raisedKey : String := "exc_info"

def functionName (method : String) : String := if method = "warn" then "warning" else method

/-- Fields cannot be named after the parameters of a call, bound ones not after those of binding.
Of the parameters of the outer call the first one given counts. -/
def reservedFault? (c : Call) : Option Fault :=
  if c.bound.has "self" then some (.repeatedArgument "BoundLoggerLazyProxy.bind" "self")
  else match c.fields.find? fun e => e.1 == "self" || e.1 == "event" with
    | some e => some (.repeatedArgument ("BoundLogger." ++ functionName c.method) e.1)
    | none =>
      if c.fields.has "method_name" then
        some (.repeatedArgument "BoundLogger._proxy_to_logger" "method_name")
      else none

def Call.asksRaised (c : Call) : Bool := c.method == "exception"

/-- The fields a call brings: those bound, those given, the arguments if any, and the event. -/
def Call.brings (c : Call) : Fields :=
  let given := if c.asksRaised then c.fields.putNew raisedKey (.bool true) else c.fields
  let given := c.bound.update given
  let given := if c.arguments.isEmpty then given else given.put argumentsKey (.tuple c.arguments)
  given.put "event" (.text c.event)

/-- Logger, level and time stamp, over whatever has their names. -/
def stamp (f : Fields) (logger : String) (severity : Severity) (time : String) : Fields :=
  ((f.put "logger" (.text (loggerName logger))).put "level" (.text severity.label)).put
    "timestamp" (.text time)

def isEntries : Value → Bool
  | .dict (_ :: _) | .mapping (_ :: _) => true
  | _ => false

/-- Arguments wait as a tuple, or as anything a field of that name holds. A single dictionary that
is not empty stands for itself, so the first of a single argument is looked at. -/
def argumentsOf (v : Value) : Except Fault Value :=
  match v with
  | .tuple [w] | .list [w] => .ok (if isEntries w then w else v)
  | .set [_] | .frozenSet [_] => .error (.notIndexed v.kind)
  | .dict [_] => .error .noFirst
  | .mapping [(k, w)] =>
    if k.same (.int 0) then .ok (if isEntries w then w else v) else .error .noFirst
  | .tuple _ | .list _ | .text _ | .set _ | .frozenSet _ | .dict _ | .mapping _ => .ok v
  | _ => .error (.notSized v.kind)

def fillEvent (f : Fields) : Except Fault Fields :=
  match f.get? argumentsKey with
  | none | some .null => .ok f
  | some v => do
    if !v.truthy then return f.erase argumentsKey
    let v ← argumentsOf v
    let event ← match f.get? "event" with
      | none => pure ""
      | some e => (e.plain none).mapError fun f => .misuse (.fault f)
    let text ← (Template.fill event v).mapError .template
    return (f.put "event" (.text text)).erase argumentsKey

def sortedSet (v : Value) : Except Misuse Value :=
  match v with
  | .set items | .frozenSet items => return .list (← Value.sorted items)
  | v => .ok v

def sortSets (f : Fields) : Except Fault Fields :=
  f.mapM fun e => return (e.1, ← (sortedSet e.2).mapError .misuse)

/-- A field in the place of the record itself must know a logger's name. -/
def checkRecord (f : Fields) : Except Fault Unit :=
  match f.get? recordKey with
  | none | some .null => .ok ()
  | some v => .error (.noLoggerName v.kind)

/-- From the fields a record starts with to the fields it shows. -/
def finish (start context : Fields) (logger : String) (severity : Severity) (time : String) :
    Except Fault Fields := do
  let f := start.fill context
  checkRecord f
  let f ← fillEvent (stamp f logger severity time)
  let f ← sortSets f
  return ((f.erase stackKey).erase recordKey).erase originKey

def Call.record (c : Call) (context : Fields) (time : String) : Except Fault Fields := do
  if let some f := reservedFault? c then throw f
  finish c.brings context c.logger c.severity time

/-- The record of a plain call, which has no fields of its own and takes its arguments first. -/
def Call.plainRecord (c : Call) (context : Fields) (time : String) : Except Fault Fields := do
  let event ←
    if c.arguments.isEmpty then pure c.event
    else do
      let v ← argumentsOf (.tuple c.arguments)
      (Template.fill c.event v).mapError .template
  let raised : Fields := if c.asksRaised then [(raisedKey, .bool true)] else []
  finish (("event", .text event) :: raised) ((context.erase recordKey).erase originKey) c.logger
    c.severity time

end Pipeline.Log
